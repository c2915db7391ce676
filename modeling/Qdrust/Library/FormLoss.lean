import Qdrust.Library.Form
import Mathlib.Data.List.TakeWhile

/-! What decoding a form loses: ASCII characters go with each separator and each
escape, and without escapes nothing but `+` is changed. -/
namespace Qdrust.Library.Form
open Utf8

section Escapes

/-- A percent sign with two hexadecimal digits. -/
def escapeAt : Bytes → Bool
  | 0x25 :: high :: low :: _ => (hexValue high).isSome && (hexValue low).isSome
  | _ => false

def hasEscape : Bytes → Bool
  | [] => false
  | byte :: rest => escapeAt (byte :: rest) || hasEscape rest

theorem escapeAt_sides {bytes : Bytes} (found : escapeAt bytes = true) :
    ∃ high low rest h l, bytes = 0x25 :: high :: low :: rest ∧ hexValue high = some h ∧ hexValue low = some l := by
  unfold escapeAt at found
  split at found
  next high low rest =>
    rw [Bool.and_eq_true,Option.isSome_iff_exists,Option.isSome_iff_exists] at found
    obtain ⟨⟨h,first⟩,⟨l,second⟩⟩ := found
    exact ⟨high,low,rest,h,l,rfl,first,second⟩
  next => cases found

theorem escapeAt_append {bytes : Bytes} (rest : Bytes) (found : escapeAt bytes = true) :
    escapeAt (bytes ++ rest) = true := by
  unfold escapeAt at found
  split at found
  · exact found
  · cases found

theorem hasEscape_append {left : Bytes} (right : Bytes) (found : hasEscape left = true) :
    hasEscape (left ++ right) = true := by
  induction left with
  | nil => cases found
  | cons byte left ih =>
    rw [hasEscape,Bool.or_eq_true] at found
    rw [List.cons_append,hasEscape,Bool.or_eq_true]
    rcases found with here | later
    · exact .inl (escapeAt_append right here)
    · exact .inr (ih later)

theorem hasEscape_append_right (left : Bytes) {right : Bytes} (found : hasEscape right = true) :
    hasEscape (left ++ right) = true := by
  induction left with
  | nil => exact found
  | cons byte left ih =>
    rw [List.cons_append,hasEscape,ih,Bool.or_true]

theorem escapeAt_percent (high low : UInt8) (rest : Bytes) :
    escapeAt (0x25 :: high :: low :: rest) = ((hexValue high).isSome && (hexValue low).isSome) := rfl

theorem escapeAt_plain {byte : UInt8} {rest : Bytes}
    (plain : ∀ high low after, byte = 0x25 → rest = high :: low :: after → False) : escapeAt (byte :: rest) = false := by
  unfold escapeAt
  split
  next high low after same =>
    obtain ⟨percent,digits⟩ := List.cons.inj same
    exact absurd (plain high low after percent digits) id
  next => rfl

/-- The first byte as it is: no escape begins there. -/
theorem percentDecode_kept {byte : UInt8} {rest : Bytes} (none : escapeAt (byte :: rest) = false) :
    percentDecode (byte :: rest) = byte :: percentDecode rest := by
  conv_lhs => unfold percentDecode
  split
  next same => cases same
  next high low after same =>
    obtain ⟨rfl,rfl⟩ := List.cons.inj same
    rw [escapeAt_percent] at none
    split
    next first second =>
      rw [first,second] at none
      cases none
    next => rfl
  next same =>
    obtain ⟨rfl,rfl⟩ := List.cons.inj same
    rfl

/-- No escape goes across a byte that is no part of one. -/
theorem escapeAt_between {stop : UInt8} (other : hexValue stop = none) (byte : UInt8) (left right : Bytes) :
    escapeAt (byte :: (left ++ stop :: right)) = escapeAt (byte :: left) := by
  by_cases percent : byte = 0x25
  · subst percent
    match left with
    | [] =>
      cases right with
      | nil => rfl
      | cons low right =>
        change escapeAt (0x25 :: stop :: low :: right) = false
        rw [escapeAt_percent,other,Option.isSome_none,Bool.false_and]
    | [high] =>
      change escapeAt (0x25 :: high :: stop :: right) = false
      rw [escapeAt_percent,other,Option.isSome_none,Bool.and_false]
    | high :: low :: left => rfl
  · rw [escapeAt_plain fun _ _ _ same _ => percent same,escapeAt_plain fun _ _ _ same _ => percent same]

theorem hasEscape_between (left right : Bytes) :
    hasEscape (left ++ 0x3D :: right) = (hasEscape left || hasEscape right) := by
  induction left with
  | nil =>
    have plain : escapeAt (0x3D :: right) = false := escapeAt_plain fun _ _ _ same _ => absurd same (by decide)
    change (escapeAt (0x3D :: right) || hasEscape right) = (false || hasEscape right)
    rw [plain]
  | cons byte left ih =>
    rw [List.cons_append,hasEscape,escapeAt_between (by decide),ih,hasEscape,Bool.or_assoc]

theorem percentDecode_between {stop : UInt8} (other : hexValue stop = none) (plain : stop ≠ 0x25) (left right : Bytes) :
    percentDecode (left ++ stop :: right) = percentDecode left ++ stop :: percentDecode right := by
  induction size : left.length using Nat.strongRecOn generalizing left with
  | ind n ih =>
    cases left with
    | nil => exact percentDecode_cons_ne plain right
    | cons byte rest =>
      cases found : escapeAt (byte :: rest) with
      | false =>
        have still := escapeAt_between other byte rest right
        rw [found] at still
        have shorter := ih rest.length (by rw [← size]; exact Nat.lt_succ_self _) rest rfl
        rw [List.cons_append,percentDecode_kept still,percentDecode_kept found,shorter,List.cons_append]
      | true =>
        obtain ⟨high,low,after,h,l,same,first,second⟩ := escapeAt_sides found
        rw [same] at size ⊢
        have shorter := ih after.length (by rw [← size]; simp only [List.length_cons]; omega) after rfl
        rw [List.cons_append,List.cons_append,List.cons_append,percentDecode_escape first second,
          percentDecode_escape first second,shorter,List.cons_append]

/-- Without an escape in it, a text is what it stands for. -/
theorem percentDecode_unescaped {bytes : Bytes} (none : hasEscape bytes = false) : percentDecode bytes = bytes := by
  induction bytes with
  | nil => rfl
  | cons byte rest ih =>
    rw [hasEscape,Bool.or_eq_false_iff] at none
    rw [percentDecode_kept none.1,ih none.2]

theorem hexValue_low {byte : UInt8} (digit : (hexValue byte).isSome = true) : byte < 128 := by
  apply UInt8.not_le.mp
  intro high
  rw [hexValue_high high] at digit
  cases digit

theorem asciiBytes_cons (byte : UInt8) (bytes : Bytes) :
    asciiBytes (byte :: bytes) = (if byte < 128 then 1 else 0) + asciiBytes bytes := by
  rw [asciiBytes,List.countP_cons,Nat.add_comm]
  simp [asciiBytes]

/-- Decoding loses an ASCII byte where there is an escape, and gains none. -/
theorem percentDecode_ascii (bytes : Bytes) :
    asciiBytes (percentDecode bytes) + (if hasEscape bytes then 1 else 0) ≤ asciiBytes bytes := by
  induction size : bytes.length using Nat.strongRecOn generalizing bytes with
  | ind n ih =>
    cases bytes with
    | nil => decide
    | cons byte rest =>
      cases found : escapeAt (byte :: rest) with
      | false =>
        have shorter := ih rest.length (by rw [← size]; exact Nat.lt_succ_self _) rest rfl
        rw [percentDecode_kept found,hasEscape,found,Bool.false_or,asciiBytes_cons,asciiBytes_cons]
        omega
      | true =>
        obtain ⟨high,low,after,h,l,same,first,second⟩ := escapeAt_sides found
        rw [same] at size ⊢
        have highLow : high < 128 := hexValue_low (by rw [first]; rfl)
        have lowLow : low < 128 := hexValue_low (by rw [second]; rfl)
        have shorter := ih after.length (by rw [← size]; simp only [List.length_cons]; omega) after rfl
        rw [percentDecode_escape first second]
        simp only [asciiBytes_cons,highLow,lowLow,if_true]
        have percent : (0x25 : UInt8) < 128 := by decide
        rw [if_pos percent]
        split <;> split <;> omega

end Escapes

section Components

/-- The byte of a space for that of `+`. -/
def spaced (byte : UInt8) : UInt8 := if byte = 0x2B then 0x20 else byte

theorem encodeChar_spaced (c : Char) :
    String.utf8EncodeChar (if c = '+' then ' ' else c) = (String.utf8EncodeChar c).map spaced := by
  by_cases plus : c = '+'
  · subst plus
    decide
  · rw [if_neg plus]
    have kept : ∀ byte ∈ String.utf8EncodeChar c, spaced byte = byte := by
      intro byte member
      apply if_neg
      rintro rfl
      by_cases small : c.toNat < 128
      · rw [encodeChar_ascii small,List.mem_singleton] at member
        have same := congrArg UInt8.toNat member
        rw [UInt8.toNat_ofNat'] at same
        change 0x2B = c.toNat % 256 at same
        exact plus (Char.toNat_inj.mp (by change c.toNat = 0x2B; omega))
      · exact absurd (encodeChar_high small _ member) (by decide)
    rw [List.map_congr_left kept]
    exact (List.map_id _).symm

theorem encode_plusToSpace (text : List Char) : encode (plusToSpace text) = (encode text).map spaced := by
  induction text with
  | nil => rfl
  | cons c text ih =>
    change String.utf8EncodeChar (if c = '+' then ' ' else c) ++ encode (plusToSpace text) = _
    rw [ih,encodeChar_spaced,encode_cons,List.map_append]

theorem spaced_percent (byte : UInt8) : spaced byte = 0x25 ↔ byte = 0x25 := by
  unfold spaced
  split
  next plus =>
    subst plus
    decide
  next => exact Iff.rfl

theorem hexValue_spaced (byte : UInt8) : hexValue (spaced byte) = hexValue byte := by
  unfold spaced
  split
  next plus =>
    subst plus
    decide
  next => rfl

theorem escapeAt_spaced (bytes : Bytes) : escapeAt (bytes.map spaced) = escapeAt bytes := by
  match bytes with
  | [] => rfl
  | [byte] => rw [escapeAt_plain (by simp),List.map_cons,escapeAt_plain (by simp)]
  | [byte,second] => rw [escapeAt_plain (by simp),List.map_cons,escapeAt_plain (by simp)]
  | byte :: high :: low :: rest =>
    by_cases percent : byte = 0x25
    · subst percent
      change escapeAt (0x25 :: spaced high :: spaced low :: rest.map spaced) = _
      rw [escapeAt_percent,escapeAt_percent,hexValue_spaced,hexValue_spaced]
    · rw [escapeAt_plain (fun _ _ _ same _ => percent same),List.map_cons,
        escapeAt_plain (fun _ _ _ same _ => percent ((spaced_percent byte).mp same))]

theorem hasEscape_spaced (bytes : Bytes) : hasEscape (bytes.map spaced) = hasEscape bytes := by
  induction bytes with
  | nil => rfl
  | cons byte rest ih =>
    have here := escapeAt_spaced (byte :: rest)
    rw [List.map_cons] at here ⊢
    rw [hasEscape,hasEscape,here,ih]

theorem asciiCount_plusToSpace (text : List Char) : asciiCount (plusToSpace text) = asciiCount text := by
  rw [asciiCount,plusToSpace,List.countP_map]
  apply List.countP_congr
  intro c _
  by_cases plus : c = '+'
  · subst plus
    decide
  · rw [Function.comp_apply,if_neg plus]

/-- What arrives for a component: its bytes as a text. -/
theorem lossy_component_ascii (text : List Char) :
    asciiCount (lossy (decodeComponent text)) + (if hasEscape (encode text) then 1 else 0) ≤ asciiCount text := by
  have decoded := percentDecode_ascii (encode (plusToSpace text))
  rw [asciiBytes_encode,asciiCount_plusToSpace] at decoded
  rw [encode_plusToSpace,hasEscape_spaced] at decoded
  rw [lossy_ascii,decodeComponent,encode_plusToSpace]
  exact decoded

/-- A space or a control character behind a component is there after decoding. -/
theorem lossy_component_blank (text rest : List Char) {c : Char} (small : c.toNat ≤ 0x20) :
    lossy (decodeComponent (text ++ c :: rest)) ≠ lossy (decodeComponent text) := by
  have kept : (if c = '+' then ' ' else c) = c := if_neg fun plus : c = '+' => by
    rw [plus] at small
    exact absurd small (by decide)
  have ascii : UInt8.ofNat c.toNat < 128 := by
    rw [UInt8.lt_iff_toNat_lt,UInt8.toNat_ofNat']
    change c.toNat % 256 < 128
    omega
  have small' : (UInt8.ofNat c.toNat).toNat ≤ 0x20 := by
    rw [UInt8.toNat_ofNat']
    change c.toNat % 256 ≤ 0x20
    omega
  have other : hexValue (UInt8.ofNat c.toNat) = none := by
    unfold hexValue
    rw [if_neg (by omega),if_neg (by omega),if_neg (by omega)]
  have plain : UInt8.ofNat c.toNat ≠ 0x25 := by
    intro same
    rw [same] at small'
    exact absurd small' (by decide)
  intro same
  have counts := congrArg asciiCount same
  rw [lossy_ascii,lossy_ascii,decodeComponent,plusToSpace_append] at counts
  change asciiBytes (percentDecode (encode (plusToSpace text ++ (if c = '+' then ' ' else c) :: plusToSpace rest))) = _ at counts
  rw [kept,encode_append,encode_cons,encodeChar_ascii (by omega),List.singleton_append,
    percentDecode_between other plain] at counts
  have more : asciiBytes (percentDecode (encode (plusToSpace text)) ++
      UInt8.ofNat c.toNat :: percentDecode (encode (plusToSpace rest))) =
      asciiBytes (decodeComponent text) + (1 + asciiBytes (percentDecode (encode (plusToSpace rest)))) := by
    rw [asciiBytes,List.countP_append,← asciiBytes,← asciiBytes,asciiBytes_cons,if_pos ascii]
    rfl
  omega

theorem lossy_component_unescaped {text : List Char} (none : hasEscape (encode text) = false) :
    lossy (decodeComponent text) = plusToSpace text := by
  rw [decodeComponent,percentDecode_unescaped,lossy_encode]
  rw [encode_plusToSpace,hasEscape_spaced,none]

end Components

section Parts

/-- The separators among the ASCII characters. -/
theorem separators_le (text : List Char) : text.count '&' + text.count '=' ≤ asciiCount text := by
  induction text with
  | nil => decide
  | cons c text ih =>
    have count : asciiCount (c :: text) = asciiCount text + if c.toNat < 128 then 1 else 0 := by
      simp [asciiCount,List.countP_cons]
    rw [count,List.count_cons,List.count_cons]
    by_cases amp : c = '&'
    · subst amp
      simp only [beq_self_eq_true,if_true]
      have equals : ('&' == '=') = false := by decide
      have small : '&'.toNat < 128 := by decide
      rw [equals,if_pos small]
      simp only [Bool.false_eq_true,if_false]
      omega
    · by_cases equals : c = '='
      · subst equals
        have other : ('=' == '&') = false := by decide
        have small : '='.toNat < 128 := by decide
        rw [other,if_pos small]
        simp only [Bool.false_eq_true,if_false,beq_self_eq_true,if_true]
        omega
      · have noAmp : (c == '&') = false := by simpa using amp
        have noEquals : (c == '=') = false := by simpa using equals
        rw [noAmp,noEquals]
        simp only [Bool.false_eq_true,if_false]
        omega

theorem formParts_append (left right : List Char) : formParts (left ++ '&' :: right) = formParts left ++ formParts right := by
  rw [formParts,List.splitOn_append_cons_self,List.filter_append]
  rfl

theorem joinFields_cons (first second : List Char × List Char) (rest : List (List Char × List Char)) :
    joinFields (first :: second :: rest) = field first.1 first.2 ++ '&' :: joinFields (second :: rest) := by
  simp [joinFields,List.intercalate]

/-- The parts of a body are those of its fields. -/
theorem formParts_fields (fields : List (List Char × List Char)) :
    formParts (joinFields fields) = fields.flatMap fun pair => formParts (field pair.1 pair.2) := by
  induction fields with
  | nil => rfl
  | cons first rest ih =>
    cases rest with
    | nil => simp [joinFields]
    | cons second rest =>
      rw [joinFields_cons,formParts_append,ih]
      conv_rhs => rw [List.flatMap_cons]

theorem formParts_single {text : List Char} (free : '&' ∉ text) :
    formParts text = if text.isEmpty then [] else [text] := by
  rw [formParts,List.splitOn_eq_singleton free]
  cases text <;> rfl

/-- A part is the text, or a piece of a text with separators. -/
theorem formParts_piece {text part : List Char} (member : part ∈ formParts text) :
    '&' ∉ part ∧ part <:+: text ∧ (part = text ∨ '&' ∈ text) := by
  induction size : text.length using Nat.strongRecOn generalizing text with
  | ind n ih =>
    by_cases separated : '&' ∈ text
    · refine ⟨?_,?_,.inr separated⟩ <;> obtain ⟨left,right,rfl,clean⟩ := List.eq_append_cons_of_mem separated
      all_goals
        rw [formParts_append,List.mem_append] at member
        rw [List.length_append,List.length_cons] at size
      · rcases member with first | later
        · rw [formParts_single clean] at first
          split at first
          · cases first
          · rw [List.mem_singleton.mp first]
            exact clean
        · exact (ih right.length (by omega) later rfl).1
      · rcases member with first | later
        · rw [formParts_single clean] at first
          split at first
          · cases first
          · rw [List.mem_singleton.mp first]
            exact ⟨[],'&' :: right,rfl⟩
        · obtain ⟨before,after,same⟩ := (ih right.length (by omega) later rfl).2.1
          exact ⟨left ++ '&' :: before,after,by rw [← same]; simp⟩
    · rw [formParts_single separated] at member
      split at member
      · cases member
      · rw [List.mem_singleton.mp member]
        exact ⟨separated,List.infix_refl text,.inl rfl⟩

theorem splitField_free {part : List Char} (free : '=' ∉ part) : splitField part = (part,[]) := by
  have kept : ∀ c ∈ part, (c != '=') = true := fun c member => by
    rw [bne_iff_ne]
    exact fun same => free (same ▸ member)
  rw [splitField,List.takeWhile_eq_self_iff.mpr kept,List.dropWhile_eq_nil_iff.mpr kept]
  rfl

theorem splitField_sides {part : List Char} (separated : '=' ∈ part) :
    field (splitField part).1 (splitField part).2 = part ∧ '=' ∉ (splitField part).1 := by
  obtain ⟨name,value,rfl,clean⟩ := List.eq_append_cons_of_mem separated
  change field (splitField (field name value)).1 (splitField (field name value)).2 = field name value ∧
    '=' ∉ (splitField (field name value)).1
  rw [splitField_field clean]
  exact ⟨rfl,clean⟩

theorem splitField_subset (part : List Char) : (splitField part).1 ⊆ part ∧ (splitField part).2 ⊆ part :=
  ⟨List.takeWhile_subset _,fun _ member => List.dropWhile_subset _ (List.mem_of_mem_drop member)⟩

theorem hasEscape_field (name value : List Char) :
    hasEscape (encode (field name value)) = (hasEscape (encode name) || hasEscape (encode value)) := by
  have equals : encode ('=' :: value) = 0x3D :: encode value := by
    rw [encode_cons]
    exact congrArg (· ++ encode value) (by decide : String.utf8EncodeChar '=' = [0x3D])
  rw [field,encode_append,equals,hasEscape_between]

theorem asciiCount_append (left right : List Char) : asciiCount (left ++ right) = asciiCount left + asciiCount right :=
  List.countP_append

theorem asciiCount_field (name value : List Char) : asciiCount (field name value) = asciiCount name + asciiCount value + 1 := by
  have equals : asciiCount ('=' :: value) = asciiCount value + 1 := List.countP_cons_of_pos (by decide)
  rw [field,asciiCount_append,equals,Nat.add_assoc]

/-- The two sides of a part, and the separator between them. -/
theorem splitField_ascii (part : List Char) :
    asciiCount (splitField part).1 + asciiCount (splitField part).2 + (if '=' ∈ part then 1 else 0) = asciiCount part := by
  by_cases separated : '=' ∈ part
  · obtain ⟨name,value,rfl,clean⟩ := List.eq_append_cons_of_mem separated
    rw [if_pos separated]
    change asciiCount (splitField (field name value)).1 + asciiCount (splitField (field name value)).2 + 1 = _
    rw [splitField_field clean]
    exact (asciiCount_field name value).symm
  · rw [if_neg separated,splitField_free separated]
    rfl

/-- A part of a field has the characters of the field, and fewer where the field has a separator in it. -/
theorem part_ascii {name value part : List Char} (member : part ∈ formParts (field name value)) :
    asciiCount (splitField part).1 + asciiCount (splitField part).2 + (if '&' ∈ name ∨ '&' ∈ value then 1 else 0) ≤
      asciiCount name + asciiCount value := by
  obtain ⟨clean,⟨left,right,whole⟩,kind⟩ := formParts_piece member
  have sides := splitField_ascii part
  have size := asciiCount_field name value
  have inside : '=' ∈ field name value := List.mem_append_right _ List.mem_cons_self
  by_cases separated : '&' ∈ name ∨ '&' ∈ value
  · rw [if_pos separated]
    have amp : '&' ∈ field name value := by
      rcases separated with front | back
      · exact List.mem_append_left _ front
      · exact List.mem_append_right _ (List.mem_cons_of_mem _ back)
    rw [← whole] at amp inside size
    have some := List.count_pos_iff.mpr amp
    have someEquals := List.count_pos_iff.mpr inside
    have none : part.count '&' = 0 := List.count_eq_zero.mpr clean
    have leftBound := separators_le left
    have rightBound := separators_le right
    simp only [List.count_append] at some someEquals
    rw [asciiCount_append,asciiCount_append] at size
    by_cases equals : '=' ∈ part
    · rw [if_pos equals] at sides
      omega
    · have noEquals : part.count '=' = 0 := List.count_eq_zero.mpr equals
      rw [if_neg equals] at sides
      omega
  · rw [if_neg separated]
    have same : part = field name value := by
      rcases kind with same | amp
      · exact same
      · rcases List.mem_append.mp amp with front | back
        · exact absurd (.inl front) separated
        · rcases List.mem_cons.mp back with equals | back
          · exact absurd equals (by decide)
          · exact absurd (.inr back) separated
    subst same
    rw [if_pos inside] at sides
    omega

end Parts

end Qdrust.Library.Form
