import Mathlib.Algebra.Ring.Nat
import Mathlib.Data.List.Basic

/-!
# UTF-8 text

Decoding follows the table of well-formed UTF-8 byte sequences: no overlong forms,
no surrogates, nothing above the last scalar value. Text is its sequence of scalar
values. The order of encoded bytes and the order of scalar values agree, so
comparing texts compares their characters.
-/

namespace Utf8

/-- A string, as its scalar values in order. -/
abbrev Text := List Char

/-- A continuation byte. -/
def isTail (byte : UInt8) : Bool := 0x80 ≤ byte && byte ≤ 0xBF

/-- The first two bytes of a well-formed three-byte sequence. -/
def leadsThree (first second : UInt8) : Bool :=
  (first == 0xE0 && 0xA0 ≤ second && second ≤ 0xBF) ||
  (0xE1 ≤ first && first ≤ 0xEC && isTail second) ||
  (first == 0xED && 0x80 ≤ second && second ≤ 0x9F) ||
  (0xEE ≤ first && first ≤ 0xEF && isTail second)

/-- The first two bytes of a well-formed four-byte sequence. -/
def leadsFour (first second : UInt8) : Bool :=
  (first == 0xF0 && 0x90 ≤ second && second ≤ 0xBF) ||
  (0xF1 ≤ first && first ≤ 0xF3 && isTail second) ||
  (first == 0xF4 && 0x80 ≤ second && second ≤ 0x8F)

/-- The six payload bits of a continuation byte. -/
def payload (byte : UInt8) : Nat := byte.toNat - 0x80

/-- `std::str::from_utf8`: the text of a well-formed byte sequence. -/
def decode : List UInt8 → Option Text
  | [] => some []
  | first :: afterFirst =>
      if first < 0x80 then (decode afterFirst).map (Char.ofNat first.toNat :: ·)
      else
        match afterFirst with
        | [] => none
        | second :: afterSecond =>
            if 0xC2 ≤ first && first ≤ 0xDF && isTail second then
              (decode afterSecond).map
                (Char.ofNat ((first.toNat - 0xC0) * 64 + payload second) :: ·)
            else
              match afterSecond with
              | [] => none
              | third :: afterThird =>
                  if leadsThree first second && isTail third then
                    (decode afterThird).map
                      (Char.ofNat (((first.toNat - 0xE0) * 64 + payload second) * 64 +
                        payload third) :: ·)
                  else
                    match afterThird with
                    | [] => none
                    | fourth :: afterFourth =>
                        if leadsFour first second && isTail third && isTail fourth then
                          (decode afterFourth).map
                            (Char.ofNat ((((first.toNat - 0xF0) * 64 + payload second) * 64 +
                              payload third) * 64 + payload fourth) :: ·)
                        else none

variable (text : Text)

/-- `str::len`: the number of encoded bytes. -/
def byteLength : Nat := (text.map Char.utf8Size).sum

variable (character : Char)

/-- `char::is_whitespace`: the Unicode property White_Space. -/
def isWhitespace : Bool :=
  let code := character.toNat
  (0x09 ≤ code && code ≤ 0x0D) || code == 0x20 || code == 0x85 || code == 0xA0 ||
    code == 0x1680 || (0x2000 ≤ code && code ≤ 0x200A) || code == 0x2028 || code == 0x2029 ||
    code == 0x202F || code == 0x205F || code == 0x3000

/-- `str::trim`: drop leading and trailing white space. -/
def trim : Text :=
  ((text.dropWhile isWhitespace).reverse.dropWhile isWhitespace).reverse

/-- A byte string literal of ASCII characters. -/
def ascii (text : String) : List UInt8 := text.toList.map Char.toUInt8

/-- Bytes below 0x80 are well formed on their own. -/
theorem decode_ascii (bytes : List UInt8) (ascii : ∀ byte ∈ bytes, byte < 0x80) :
    decode bytes = some (bytes.map (fun byte => Char.ofNat byte.toNat)) := by
  induction bytes with
  | nil => rfl
  | cons byte rest ih =>
    have small : byte < 0x80 := ascii byte (by simp)
    have remaining := ih (fun other member => ascii other (by simp [member]))
    rw [decode.eq_def]
    simp [small, remaining]

/-! ## Encoding -/

variable (bits : Nat)

/-- A continuation byte with the given payload. -/
def tail : UInt8 := UInt8.ofNat (0x80 + bits % 64)

/-- `char::encode_utf8`. -/
def encodeChar : List UInt8 :=
  let code := character.toNat
  if code < 0x80 then [UInt8.ofNat code]
  else if code < 0x800 then [UInt8.ofNat (0xC0 + code / 64), tail code]
  else if code < 0x10000 then [UInt8.ofNat (0xE0 + code / 4096), tail (code / 64), tail code]
  else [UInt8.ofNat (0xF0 + code / 262144), tail (code / 4096), tail (code / 64), tail code]

/-- `str::as_bytes`. -/
def encode : List UInt8 := text.flatMap encodeChar

theorem toNat_tail : (tail bits).toNat = 0x80 + bits % 64 := by
  have small : 0x80 + bits % 64 < 256 := by omega
  exact UInt8.toNat_ofNat_of_lt' small

@[simp] theorem isTail_tail : isTail (tail bits) = true := by
  have value := toNat_tail bits
  simp only [isTail, Bool.and_eq_true, decide_eq_true_iff, UInt8.le_iff_toNat_le, value,
    UInt8.reduceToNat]
  omega

@[simp] theorem payload_tail : payload (tail bits) = bits % 64 := by
  have value := toNat_tail bits
  unfold payload
  omega

/-- The conditions that `decode` puts on a first byte, on the number in it. -/
theorem lead_conditions {number : Nat} (small : number < 256) :
    (UInt8.ofNat number < 0x80 ↔ number < 0x80) ∧
      ((0xC2 ≤ UInt8.ofNat number && UInt8.ofNat number ≤ 0xDF) = true ↔
        0xC2 ≤ number ∧ number ≤ 0xDF) := by
  have value := UInt8.toNat_ofNat_of_lt' small
  simp only [Bool.and_eq_true, decide_eq_true_iff, UInt8.le_iff_toNat_le, UInt8.lt_iff_toNat_lt,
    value, UInt8.reduceToNat, and_self]

variable {code : Nat}

theorem decode_one (high : code < 0x80) (rest : List UInt8) :
    decode (UInt8.ofNat code :: rest) = (decode rest).map (Char.ofNat code :: ·) := by
  have value := UInt8.toNat_ofNat_of_lt' (show code < 256 by omega)
  have leads := (lead_conditions (show code < 256 by omega)).1.mpr high
  rw [decode.eq_def]
  simp only [if_pos leads, value]

theorem decode_two (low : 0x80 ≤ code) (high : code < 0x800) (rest : List UInt8) :
    decode (UInt8.ofNat (0xC0 + code / 64) :: tail code :: rest) =
      (decode rest).map (Char.ofNat code :: ·) := by
  have small : 0xC0 + code / 64 < 256 := by omega
  have value := UInt8.toNat_ofNat_of_lt' small
  obtain ⟨single, double⟩ := lead_conditions small
  have leads := double.mpr (by omega)
  have assembled : (0xC0 + code / 64 - 0xC0) * 64 + code % 64 = code := by omega
  rw [decode.eq_def]
  simp only [if_neg (mt single.mp (by omega)), leads, isTail_tail, Bool.and_self, if_true, value,
    payload_tail, assembled]

theorem decode_three (low : 0x800 ≤ code) (high : code < 0x10000)
    (scalar : code < 0xD800 ∨ 0xDFFF < code) (rest : List UInt8) :
    decode (UInt8.ofNat (0xE0 + code / 4096) :: tail (code / 64) :: tail code :: rest) =
      (decode rest).map (Char.ofNat code :: ·) := by
  have small : 0xE0 + code / 4096 < 256 := by omega
  have value := UInt8.toNat_ofNat_of_lt' small
  have second := toNat_tail (code / 64)
  obtain ⟨single, double⟩ := lead_conditions small
  have leads : leadsThree (UInt8.ofNat (0xE0 + code / 4096)) (tail (code / 64)) = true := by
    simp only [leadsThree, isTail, Bool.or_eq_true, Bool.and_eq_true, beq_iff_eq, decide_eq_true_iff,
      ← UInt8.toNat_inj, UInt8.le_iff_toNat_le, value, second, UInt8.reduceToNat]
    omega
  have assembled :
      ((0xE0 + code / 4096 - 0xE0) * 64 + code / 64 % 64) * 64 + code % 64 = code := by omega
  rw [decode.eq_def]
  simp only [if_neg (mt single.mp (by omega)), Bool.eq_false_iff.mpr (mt double.mp (by omega)),
    Bool.false_and, Bool.false_eq_true, if_false, leads, isTail_tail, Bool.and_self, if_true, value,
    payload_tail, assembled]

theorem decode_four (low : 0x10000 ≤ code) (high : code < 0x110000) (rest : List UInt8) :
    decode (UInt8.ofNat (0xF0 + code / 262144) :: tail (code / 4096) :: tail (code / 64) ::
      tail code :: rest) = (decode rest).map (Char.ofNat code :: ·) := by
  have small : 0xF0 + code / 262144 < 256 := by omega
  have value := UInt8.toNat_ofNat_of_lt' small
  have second := toNat_tail (code / 4096)
  obtain ⟨single, double⟩ := lead_conditions small
  have short : leadsThree (UInt8.ofNat (0xF0 + code / 262144)) (tail (code / 4096)) = false := by
    rw [Bool.eq_false_iff]
    simp only [ne_eq, leadsThree, isTail, Bool.or_eq_true, Bool.and_eq_true, beq_iff_eq,
      decide_eq_true_iff, ← UInt8.toNat_inj, UInt8.le_iff_toNat_le, value, second, UInt8.reduceToNat]
    omega
  have leads : leadsFour (UInt8.ofNat (0xF0 + code / 262144)) (tail (code / 4096)) = true := by
    simp only [leadsFour, isTail, Bool.or_eq_true, Bool.and_eq_true, beq_iff_eq, decide_eq_true_iff,
      ← UInt8.toNat_inj, UInt8.le_iff_toNat_le, value, second, UInt8.reduceToNat]
    omega
  have assembled : (((0xF0 + code / 262144 - 0xF0) * 64 + code / 4096 % 64) * 64 +
      code / 64 % 64) * 64 + code % 64 = code := by omega
  rw [decode.eq_def]
  simp only [if_neg (mt single.mp (by omega)), Bool.eq_false_iff.mpr (mt double.mp (by omega)),
    Bool.false_and, Bool.false_eq_true, if_false, short, leads, isTail_tail, Bool.and_self, if_true,
    value, payload_tail, assembled]

/-- A character is read back, whatever follows it. -/
theorem decode_encodeChar (rest : List UInt8) :
    decode (encodeChar character ++ rest) = (decode rest).map (character :: ·) := by
  have restored : Char.ofNat character.toNat = character := Char.ofNat_toNat character
  have scalar : character.toNat < 0xD800 ∨ 0xDFFF < character.toNat ∧ character.toNat < 0x110000 :=
    character.valid
  conv_rhs => rw [← restored]
  rw [encodeChar]
  generalize character.toNat = code at scalar ⊢
  split
  · exact decode_one (by omega) rest
  split
  · exact decode_two (by omega) (by omega) rest
  split
  · exact decode_three (by omega) (by omega) (by omega) rest
  · exact decode_four (by omega) (by omega) rest

/-- Every text is read back from its bytes. -/
theorem decode_encode : decode (encode text) = some text := by
  induction text with
  | nil => rfl
  | cons character rest ih =>
    rw [encode, List.flatMap_cons, decode_encodeChar]
    exact congrArg (Option.map (character :: ·)) ih

end Utf8
