import Qdrust.Library.Utf8

/-! Percent encoding and `application/x-www-form-urlencoded` texts, whose names and
values are byte strings. -/
namespace Qdrust.Library.Form
open Utf8

def hexValue (byte : UInt8) : Option Nat :=
  if 48 ≤ byte.toNat ∧ byte.toNat ≤ 57 then some (byte.toNat - 48)
  else if 65 ≤ byte.toNat ∧ byte.toNat ≤ 70 then some (byte.toNat - 55)
  else if 97 ≤ byte.toNat ∧ byte.toNat ≤ 102 then some (byte.toNat - 87)
  else none

def percentDecode : Bytes → Bytes
  | [] => []
  | 0x25 :: high :: low :: rest =>
    match hexValue high,hexValue low with
    | some h,some l => UInt8.ofNat (h * 16 + l) :: percentDecode rest
    | _,_ => 0x25 :: percentDecode (high :: low :: rest)
  | byte :: rest => byte :: percentDecode rest

def hexDigit (n : Nat) : Char := Char.ofNat (if n < 10 then 48 + n else 55 + n)

/-- Escape the bytes in `set` and every byte beyond ASCII. -/
def percentEncodeByte (set : UInt8 → Bool) (byte : UInt8) : List Char :=
  if byte < 128 ∧ set byte = false then [Char.ofNat byte.toNat]
  else ['%',hexDigit (byte.toNat / 16),hexDigit (byte.toNat % 16)]

def percentEncode (set : UInt8 → Bool) (bytes : Bytes) : List Char := bytes.flatMap (percentEncodeByte set)

def plusToSpace (text : List Char) : List Char := text.map fun c => if c = '+' then ' ' else c

/-- The byte string a name or value stands for. -/
def decodeComponent (text : List Char) : Bytes := percentDecode (encode (plusToSpace text))

/-- The sides of the first `=`. -/
def splitField (part : List Char) : List Char × List Char :=
  (part.takeWhile fun c => c != '=',(part.dropWhile fun c => c != '=').drop 1)

/-- The nonempty parts between the separators. -/
def formParts (body : List Char) : List (List Char) := (body.splitOn '&').filter fun part => !part.isEmpty

def formPairs (body : List Char) : List (Bytes × Bytes) :=
  (formParts body).map fun part => (decodeComponent (splitField part).1,decodeComponent (splitField part).2)

def field (name value : List Char) : List Char := name ++ '=' :: value

def joinFields (fields : List (List Char × List Char)) : List Char :=
  ['&'].intercalate (fields.map fun pair => field pair.1 pair.2)

section Percent

theorem hexValue_hexDigit : ∀ n < 16, hexValue (UInt8.ofNat (hexDigit n).toNat) = some n := by
  decide

theorem hexDigit_plain : ∀ n < 16, (hexDigit n).toNat < 128 ∧ hexDigit n ≠ '+' ∧ hexDigit n ≠ '&' ∧ hexDigit n ≠ '=' := by
  decide

theorem hexValue_high {byte : UInt8} (high : 128 ≤ byte) : hexValue byte = none := by
  have bound : 128 ≤ byte.toNat := UInt8.le_iff_toNat_le.mp high
  unfold hexValue
  rw [if_neg (by omega),if_neg (by omega),if_neg (by omega)]

theorem percentDecode_cons_ne {byte : UInt8} (plain : byte ≠ 0x25) (rest : Bytes) :
    percentDecode (byte :: rest) = byte :: percentDecode rest := by
  rw [percentDecode]
  rintro high low rest rfl
  exact absurd rfl plain

theorem percentDecode_append {bytes : Bytes} (plain : ∀ byte ∈ bytes, byte ≠ 0x25) (rest : Bytes) :
    percentDecode (bytes ++ rest) = bytes ++ percentDecode rest := by
  induction bytes with
  | nil => rfl
  | cons byte bytes ih =>
    rw [List.forall_mem_cons] at plain
    rw [List.cons_append,percentDecode_cons_ne plain.1,ih plain.2,List.cons_append]

theorem percentDecode_escape {high low : UInt8} {h l : Nat} (first : hexValue high = some h)
    (second : hexValue low = some l) (rest : Bytes) :
    percentDecode (0x25 :: high :: low :: rest) = UInt8.ofNat (h * 16 + l) :: percentDecode rest := by
  rw [percentDecode,first,second]

theorem ofNat_parts (byte : UInt8) : UInt8.ofNat (byte.toNat / 16 * 16 + byte.toNat % 16) = byte := by
  rw [Nat.div_add_mod',UInt8.ofNat_toNat]

theorem plusToSpace_append (left right : List Char) :
    plusToSpace (left ++ right) = plusToSpace left ++ plusToSpace right := List.map_append

theorem plusToSpace_plain {text : List Char} (plain : '+' ∉ text) : plusToSpace text = text := by
  have same : ∀ c ∈ text, (if c = '+' then ' ' else c) = id c := fun c member =>
    if_neg fun plus : c = '+' => plain (plus ▸ member)
  rw [plusToSpace,List.map_congr_left same,List.map_id]

theorem char_of_byte {byte : UInt8} (low : byte < 128) : (Char.ofNat byte.toNat).toNat = byte.toNat := by
  have bound : byte.toNat < 128 := UInt8.lt_iff_toNat_lt.mp low
  unfold Char.ofNat
  rw [dif_pos (Or.inl (by omega))]
  rfl

theorem encode_of_byte {byte : UInt8} (low : byte < 128) : encode [Char.ofNat byte.toNat] = [byte] := by
  have bound : byte.toNat < 128 := UInt8.lt_iff_toNat_lt.mp low
  rw [encode_cons,encodeChar_ascii (by rw [char_of_byte low]; exact bound),char_of_byte low,UInt8.ofNat_toNat]
  rfl

variable {set : UInt8 → Bool}

/-- The characters an encoded text is made of. -/
theorem percentEncodeByte_free {stop : Char} (escaped : set (UInt8.ofNat stop.toNat) = true)
    (digits : ∀ n < 16, hexDigit n ≠ stop) (percent : stop ≠ '%') (byte : UInt8) :
    stop ∉ percentEncodeByte set byte := by
  have bound := byte.toNat_lt
  unfold percentEncodeByte
  intro member
  split at member
  · rename_i kept
    have same := List.mem_singleton.mp member
    rw [same,char_of_byte kept.1,UInt8.ofNat_toNat,kept.2] at escaped
    exact absurd escaped (by decide)
  · simp only [List.mem_cons,List.not_mem_nil,or_false] at member
    rcases member with same | same | same
    · exact percent same
    · exact digits (byte.toNat / 16) (by omega) same.symm
    · exact digits (byte.toNat % 16) (by omega) same.symm

theorem percentEncode_free {stop : Char} (escaped : set (UInt8.ofNat stop.toNat) = true)
    (digits : ∀ n < 16, hexDigit n ≠ stop) (percent : stop ≠ '%') (bytes : Bytes) :
    stop ∉ percentEncode set bytes := by
  intro member
  obtain ⟨byte,_,inside⟩ := List.mem_flatMap.mp member
  exact percentEncodeByte_free escaped digits percent byte inside

theorem percentDecode_percentEncodeByte (escaped : set 0x25 = true) (byte : UInt8) (rest : Bytes) :
    percentDecode (encode (percentEncodeByte set byte) ++ rest) = byte :: percentDecode rest := by
  have bound := byte.toNat_lt
  unfold percentEncodeByte
  split
  · rename_i kept
    have plain : byte ≠ 0x25 := by
      rintro rfl
      rw [escaped] at kept
      exact absurd kept.2 (by decide)
    rw [encode_of_byte kept.1]
    exact percentDecode_cons_ne plain rest
  · have high := hexDigit_plain (byte.toNat / 16) (by omega)
    have low := hexDigit_plain (byte.toNat % 16) (by omega)
    rw [encode_cons,encode_cons,encode_cons,encodeChar_ascii high.1,encodeChar_ascii low.1]
    change percentDecode (0x25 :: UInt8.ofNat (hexDigit (byte.toNat / 16)).toNat ::
      UInt8.ofNat (hexDigit (byte.toNat % 16)).toNat :: rest) = _
    rw [percentDecode_escape (hexValue_hexDigit _ (by omega)) (hexValue_hexDigit _ (by omega)),ofNat_parts]

theorem percentDecode_percentEncode (escaped : set 0x25 = true) (bytes rest : Bytes) :
    percentDecode (encode (percentEncode set bytes) ++ rest) = bytes ++ percentDecode rest := by
  induction bytes with
  | nil => rfl
  | cons byte bytes ih =>
    change percentDecode (encode (percentEncodeByte set byte ++ percentEncode set bytes) ++ rest) = _
    rw [encode_append,List.append_assoc,percentDecode_percentEncodeByte escaped,ih,List.cons_append]

end Percent

section Fields

/-- An encoded component decodes to its bytes. -/
theorem decodeComponent_percentEncode {set : UInt8 → Bool} (percent : set 0x25 = true) (plus : set 0x2B = true)
    (bytes : Bytes) : decodeComponent (percentEncode set bytes) = bytes := by
  have free : '+' ∉ percentEncode set bytes := by
    apply percentEncode_free
    · exact plus
    · exact fun n bound => (hexDigit_plain n bound).2.1
    · decide
  have decoded := percentDecode_percentEncode percent bytes []
  rw [List.append_nil] at decoded
  rw [decodeComponent,plusToSpace_plain free,decoded]
  exact List.append_nil bytes

theorem splitField_field {name : List Char} (free : '=' ∉ name) (value : List Char) :
    splitField (field name value) = (name,value) := by
  have kept : ∀ c ∈ name, (c != '=') = true := fun c member => by
    rw [bne_iff_ne]
    exact fun same => free (same ▸ member)
  rw [splitField,field,List.takeWhile_append_of_pos kept,List.dropWhile_append_of_pos kept]
  simp

theorem formParts_joinFields {fields : List (List Char × List Char)}
    (free : ∀ pair ∈ fields, '&' ∉ pair.1 ∧ '&' ∉ pair.2) :
    formParts (joinFields fields) = fields.map fun pair => field pair.1 pair.2 := by
  cases fields with
  | nil => rfl
  | cons first rest =>
    have whole : ∀ part ∈ (first :: rest).map fun pair => field pair.1 pair.2, '&' ∉ part ∧ part.isEmpty = false := by
      intro part member
      obtain ⟨pair,inside,rfl⟩ := List.mem_map.mp member
      have clean := free pair inside
      constructor
      · intro amp
        rcases List.mem_append.mp amp with front | back
        · exact clean.1 front
        · rcases List.mem_cons.mp back with equals | back
          · exact absurd equals (by decide)
          · exact clean.2 back
      · cases name : pair.1 <;> simp [field]
    rw [formParts,joinFields,List.splitOn_intercalate '&' (fun part member => (whole part member).1) (by simp),
      List.filter_eq_self]
    intro part member
    rw [(whole part member).2]
    rfl

/-- Fields without separators are read back, name by name and value by value. -/
theorem formPairs_joinFields {fields : List (List Char × List Char)}
    (free : ∀ pair ∈ fields, '&' ∉ pair.1 ∧ '&' ∉ pair.2 ∧ '=' ∉ pair.1) :
    formPairs (joinFields fields) = fields.map fun pair => (decodeComponent pair.1,decodeComponent pair.2) := by
  rw [formPairs,formParts_joinFields fun pair member => ⟨(free pair member).1,(free pair member).2.1⟩,List.map_map]
  apply List.map_congr_left
  intro pair member
  change (decodeComponent (splitField (field pair.1 pair.2)).1,decodeComponent (splitField (field pair.1 pair.2)).2) = _
  rw [splitField_field (free pair member).2.2]

end Fields

end Qdrust.Library.Form
