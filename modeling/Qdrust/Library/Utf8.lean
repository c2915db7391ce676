import Mathlib.Data.List.Basic
import Mathlib.Data.List.Count

/-! UTF-8 over lists of bytes: encoding a text and decoding with replacements.
A maximal prefix that no character begins with becomes one `U+FFFD`. -/
namespace Qdrust.Library.Utf8

abbrev Bytes := List UInt8

def encode (text : List Char) : Bytes := text.flatMap String.utf8EncodeChar

/-- The bytes of some text. -/
def Valid (bytes : Bytes) : Prop := ∃ text, encode text = bytes

/-- The character a sequence of bytes begins with. -/
def head (bytes : Bytes) : Option Char := bytes.toByteArray.utf8DecodeChar? 0

def isContinuation (byte : UInt8) : Bool := 0x80 ≤ byte && byte ≤ 0xBF

/-- Whether `second` can follow `first` in a character of three or four bytes. -/
def secondFits (first second : UInt8) : Bool :=
  (first == 0xE0 && 0xA0 ≤ second && second ≤ 0xBF) ||
    (0xE1 ≤ first && first ≤ 0xEC && isContinuation second) ||
    (first == 0xED && 0x80 ≤ second && second ≤ 0x9F) ||
    (0xEE ≤ first && first ≤ 0xEF && isContinuation second) ||
    (first == 0xF0 && 0x90 ≤ second && second ≤ 0xBF) ||
    (0xF1 ≤ first && first ≤ 0xF3 && isContinuation second) ||
    (first == 0xF4 && 0x80 ≤ second && second ≤ 0x8F)

/-- How many bytes one replacement stands for, where no character begins. -/
def brokenLength : Bytes → Nat
  | first :: second :: rest =>
    if secondFits first second then
      match rest with
      | third :: _ => if 0xF0 ≤ first && isContinuation third then 3 else 2
      | [] => 2
    else 1
  | _ => 1

/-- Decode at most `fuel` characters. -/
def lossyFrom : Nat → Bytes → List Char
  | 0,_ => []
  | _,[] => []
  | fuel + 1,byte :: bytes =>
    match head (byte :: bytes) with
    | some c => c :: lossyFrom fuel ((byte :: bytes).drop (String.utf8EncodeChar c).length)
    | none => '\uFFFD' :: lossyFrom fuel ((byte :: bytes).drop (brokenLength (byte :: bytes)))

/-- Every byte is consumed, since each round takes at least one. -/
def lossy (bytes : Bytes) : List Char := lossyFrom bytes.length bytes

@[simp] theorem encode_nil : encode [] = [] := rfl

@[simp] theorem encode_cons (c : Char) (text : List Char) :
    encode (c :: text) = String.utf8EncodeChar c ++ encode text := rfl

theorem encode_append (left right : List Char) : encode (left ++ right) = encode left ++ encode right :=
  List.flatMap_append

theorem encodeChar_ne_nil (c : Char) : String.utf8EncodeChar c ≠ [] := String.utf8EncodeChar_ne_nil

theorem head_encodeChar (c : Char) (rest : Bytes) : head (String.utf8EncodeChar c ++ rest) = some c := by
  rw [head,List.toByteArray_append]
  exact ByteArray.utf8DecodeChar?_utf8EncodeChar_append

/-- A character that is read stands in front, in its own bytes. -/
theorem eq_of_head {bytes : Bytes} {c : Char} (read : head bytes = some c) :
    bytes = String.utf8EncodeChar c ++ bytes.drop (String.utf8EncodeChar c).length := by
  obtain ⟨rest,split⟩ := ByteArray.exists_of_utf8DecodeChar?_eq_some read
  have same : bytes = String.utf8EncodeChar c ++ rest.data.toList := by
    apply List.toByteArray_inj.mp
    have bytesOf : rest = rest.data.toList.toByteArray :=
      ByteArray.ext (by rw [List.data_toByteArray,Array.toArray_toList])
    rw [List.toByteArray_append,split,← bytesOf]
  rw [same,List.drop_left]

/-- Decoding undoes encoding. -/
theorem lossyFrom_encode (text : List Char) :
    ∀ fuel, (encode text).length ≤ fuel → lossyFrom fuel (encode text) = text := by
  induction text with
  | nil =>
    intro fuel _
    cases fuel <;> rfl
  | cons c text ih =>
    intro fuel enough
    rw [encode_cons] at enough ⊢
    have read := head_encodeChar c (encode text)
    have dropped : (String.utf8EncodeChar c ++ encode text).drop (String.utf8EncodeChar c).length = encode text :=
      List.drop_left
    rw [List.length_append] at enough
    have positive := List.length_pos_of_ne_nil (encodeChar_ne_nil c)
    obtain ⟨less,rfl⟩ : ∃ less, fuel = less + 1 := ⟨fuel - 1,by omega⟩
    rcases shape : String.utf8EncodeChar c ++ encode text with _ | ⟨byte,bytes⟩
    · rw [List.append_eq_nil_iff] at shape
      exact absurd shape.1 (encodeChar_ne_nil c)
    · rw [shape] at read dropped
      rw [lossyFrom,read]
      change c :: lossyFrom less _ = c :: text
      rw [dropped,ih less (by omega)]

@[simp] theorem lossy_encode (text : List Char) : lossy (encode text) = text :=
  lossyFrom_encode text _ (Nat.le_refl _)

theorem encode_lossy_iff (bytes : Bytes) : encode (lossy bytes) = bytes ↔ Valid bytes := by
  constructor
  · intro same
    exact ⟨lossy bytes,same⟩
  · rintro ⟨text,rfl⟩
    rw [lossy_encode]

section Ascii

/-- The number of ASCII characters. -/
def asciiCount (text : List Char) : Nat := text.countP fun c => decide (c.toNat < 128)

def asciiBytes (bytes : Bytes) : Nat := bytes.countP fun byte => decide (byte < 128)

theorem encodeChar_ascii {c : Char} (small : c.toNat < 128) :
    String.utf8EncodeChar c = [UInt8.ofNat c.toNat] := by
  have bound : c.val.toNat ≤ 0x7f := Nat.le_of_lt_succ small
  unfold String.utf8EncodeChar
  rw [if_pos bound]
  rfl

theorem high_byte (n low : Nat) (high : 128 ≤ low) (small : n + low < 256) : 128 ≤ UInt8.ofNat (n + low) := by
  rw [UInt8.le_iff_toNat_le,UInt8.toNat_ofNat']
  change 128 ≤ (n + low) % 256
  omega

theorem encodeChar_high {c : Char} (large : ¬c.toNat < 128) :
    ∀ byte ∈ String.utf8EncodeChar c, 128 ≤ byte := by
  have bound : ¬c.val.toNat ≤ 0x7f := fun small => large (Nat.lt_succ_of_le small)
  unfold String.utf8EncodeChar
  rw [if_neg bound]
  intro byte member
  split at member
  · simp only [List.mem_cons,List.not_mem_nil,or_false] at member
    rcases member with rfl | rfl <;> exact high_byte _ _ (by decide) (by omega)
  · split at member
    · simp only [List.mem_cons,List.not_mem_nil,or_false] at member
      rcases member with rfl | rfl | rfl <;> exact high_byte _ _ (by decide) (by omega)
    · simp only [List.mem_cons,List.not_mem_nil,or_false] at member
      rcases member with rfl | rfl | rfl | rfl <;> exact high_byte _ _ (by decide) (by omega)

theorem asciiBytes_high {bytes : Bytes} (high : ∀ byte ∈ bytes, 128 ≤ byte) : asciiBytes bytes = 0 :=
  List.countP_eq_zero.mpr fun byte member => by simpa using high byte member

theorem asciiBytes_encodeChar (c : Char) : asciiBytes (String.utf8EncodeChar c) = asciiCount [c] := by
  by_cases small : c.toNat < 128
  · have low : UInt8.ofNat c.toNat < 128 := by
      rw [UInt8.lt_iff_toNat_lt,UInt8.toNat_ofNat']
      change c.toNat % 256 < 128
      omega
    rw [encodeChar_ascii small]
    simp [asciiBytes,asciiCount,small,low]
  · rw [asciiBytes_high (encodeChar_high small)]
    simp [asciiCount,small]

theorem secondFits_high {first second : UInt8} (fits : secondFits first second = true) : 128 ≤ second := by
  simp only [secondFits,isContinuation,Bool.or_eq_true,Bool.and_eq_true,decide_eq_true_eq] at fits
  rcases fits with (((((fits | fits) | fits) | fits) | fits) | fits) | fits
  · exact UInt8.le_trans (by decide) fits.1.2
  · exact fits.2.1
  · exact fits.1.2
  · exact fits.2.1
  · exact UInt8.le_trans (by decide) fits.1.2
  · exact fits.2.1
  · exact fits.1.2

/-- No ASCII byte is lost in a replacement. -/
theorem broken_high (first : UInt8) (bytes : Bytes) (high : 128 ≤ first) :
    ∀ byte ∈ (first :: bytes).take (brokenLength (first :: bytes)), 128 ≤ byte := by
  cases bytes with
  | nil => simpa [brokenLength] using high
  | cons second rest =>
    by_cases fits : secondFits first second = true
    · have secondHigh := secondFits_high fits
      cases rest with
      | nil => simp [brokenLength,fits,high,secondHigh]
      | cons third rest =>
        by_cases more : (0xF0 ≤ first && isContinuation third) = true
        · have thirdHigh : 128 ≤ third := by
            simp only [isContinuation,Bool.and_eq_true,decide_eq_true_eq] at more
            exact more.2.1
          rw [brokenLength,if_pos fits,if_pos more]
          simp [high,secondHigh,thirdHigh]
        · rw [brokenLength,if_pos fits,if_neg more]
          simp [high,secondHigh]
    · simpa [brokenLength,fits] using high

theorem head_ascii {byte : UInt8} (low : byte < 128) (bytes : Bytes) :
    head (byte :: bytes) = some (Char.ofNat byte.toNat) := by
  have bound : byte.toNat < 128 := UInt8.lt_iff_toNat_lt.mp low
  have small : (Char.ofNat byte.toNat).toNat = byte.toNat := by
    unfold Char.ofNat
    rw [dif_pos (Or.inl (by omega))]
    rfl
  have read := head_encodeChar (Char.ofNat byte.toNat) bytes
  rw [encodeChar_ascii (by omega),small,UInt8.ofNat_toNat] at read
  exact read

theorem brokenLength_pos (bytes : Bytes) : 0 < brokenLength bytes := by
  unfold brokenLength
  split
  · split
    · split
      · split <;> decide
      · decide
    · decide
  · decide

theorem lossyFrom_ascii (fuel : Nat) :
    ∀ bytes : Bytes, bytes.length ≤ fuel → asciiCount (lossyFrom fuel bytes) = asciiBytes bytes := by
  induction fuel with
  | zero =>
    intro bytes enough
    rw [List.eq_nil_of_length_eq_zero (by omega : bytes.length = 0)]
    rfl
  | succ fuel ih =>
    intro bytes enough
    cases bytes with
    | nil => rfl
    | cons byte bytes =>
      rw [lossyFrom]
      cases read : head (byte :: bytes) with
      | some c =>
        have split := eq_of_head read
        have shorter : ((byte :: bytes).drop (String.utf8EncodeChar c).length).length ≤ fuel := by
          have positive := List.length_pos_of_ne_nil (encodeChar_ne_nil c)
          rw [List.length_drop]
          rw [List.length_cons] at enough ⊢
          omega
        change asciiCount ([c] ++ _) = _
        rw [asciiCount,List.countP_append,← asciiCount,← asciiCount,ih _ shorter,← asciiBytes_encodeChar]
        conv_rhs => rw [split,asciiBytes,List.countP_append]
        rfl
      | none =>
        have high : 128 ≤ byte := by
          apply UInt8.not_lt.mp
          intro low
          rw [head_ascii low bytes] at read
          cases read
        have positive := brokenLength_pos (byte :: bytes)
        have shorter : ((byte :: bytes).drop (brokenLength (byte :: bytes))).length ≤ fuel := by
          rw [List.length_drop]
          rw [List.length_cons] at enough ⊢
          omega
        change asciiCount (['\uFFFD'] ++ _) = _
        rw [asciiCount,List.countP_append,← asciiCount,← asciiCount,ih _ shorter]
        conv_rhs =>
          rw [← List.take_append_drop (brokenLength (byte :: bytes)) (byte :: bytes),asciiBytes,List.countP_append,
            ← asciiBytes,← asciiBytes,asciiBytes_high (broken_high byte bytes high)]
        rfl

/-- Decoding keeps every ASCII character and adds none. -/
theorem lossy_ascii (bytes : Bytes) : asciiCount (lossy bytes) = asciiBytes bytes :=
  lossyFrom_ascii _ bytes (Nat.le_refl _)

theorem asciiBytes_encode (text : List Char) : asciiBytes (encode text) = asciiCount text := by
  rw [← lossy_ascii,lossy_encode]

end Ascii

end Qdrust.Library.Utf8
