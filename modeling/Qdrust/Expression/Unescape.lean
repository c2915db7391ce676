import Qdrust.Library.Scanner
import Qdrust.Library.Utf8

/-! `conver2unicode`: the escapes of a text become the characters they stand for. -/
namespace Qdrust.Expression.Unescape
open Library Scanner

/-- `char::to_digit(16)`. -/
def hexDigit (c : Char) : Option Nat :=
  if '0' ≤ c ∧ c ≤ '9' then some (c.toNat - 48)
  else if 'a' ≤ c ∧ c ≤ 'f' then some (c.toNat - 87)
  else if 'A' ≤ c ∧ c ≤ 'F' then some (c.toNat - 55)
  else none

/-- The number that hexadecimal digits write. -/
def hexNumber (digits : List Char) : Option Nat :=
  digits.foldl (fun number c => number.bind fun number => (hexDigit c).map (number * 16 + ·)) (some 0)

/-- `u32::from_str_radix` for texts of up to four characters, which cannot overflow. A sign may come first. -/
def fromStrRadix (text : List Char) : Option Nat :=
  let digits := if text.head? = some '+' then text.tail else text
  if digits = [] then none else hexNumber digits

/-- `char::from_u32`. -/
def fromU32 (code : Nat) : Option Char := if code.isValidChar then some (Char.ofNat code) else none

/-- `str::from_utf8` for one byte. -/
def byteText (byte : UInt8) : Option (List Char) :=
  if Utf8.encode (Utf8.lossy [byte]) = [byte] then some (Utf8.lossy [byte]) else none

def decodeU (hex : List Char) : Option Char := (fromStrRadix hex).bind fromU32

def decodeX (hex : List Char) : Option Char :=
  (fromStrRadix hex).map fun code =>
    if code < 128 then (fromU32 code).getD '\uFFFD'
    else
      match byteText (UInt8.ofNat code) with
      | some text => text.head?.getD '\uFFFD'
      | none => (fromU32 code).getD '\uFFFD'

/-- The characters after `\u` or `\x` are taken before they are looked at. -/
def takeHex (kind : Char) (width : Nat) (decode : List Char → Option Char) (rest : List Char) : List Char × List Char :=
  match decode (rest.take width) with
  | some decoded => ([decoded],rest.drop width)
  | none => ('\\' :: kind :: rest.take width,rest.drop width)

def simpleEscape (kind : Char) : Option Char :=
  if kind = 'n' then some '\n'
  else if kind = 'r' then some '\r'
  else if kind = 't' then some '\t'
  else if kind = '\\' then some '\\'
  else none

/-- One round of the loop. -/
def convertStep : List Char → List Char × List Char
  | [] => ([],[])
  | [current] => ([current],[])
  | current :: kind :: rest =>
    if current ≠ '\\' then ([current],kind :: rest)
    else if kind = 'u' then takeHex 'u' 4 decodeU rest
    else if kind = 'x' then takeHex 'x' 2 decodeX rest
    else
      match simpleEscape kind with
      | some decoded => ([decoded],rest)
      | none => ([current],kind :: rest)

def conver2unicode (value : List Char) : List Char := scan convertStep value

/-- So many hexadecimal digits. -/
def hexCode (width : Nat) (text : List Char) : Option Nat :=
  if (text.take width).length = width then hexNumber (text.take width) else none

/-- A well-formed escape at the start of a text, with its character. -/
def escape : List Char → Option (Char × List Char)
  | '\\' :: kind :: rest =>
    if kind = 'u' then ((hexCode 4 rest).bind fromU32).map fun c => (c,rest.drop 4)
    else if kind = 'x' then ((hexCode 2 rest).bind fromU32).map fun c => (c,rest.drop 2)
    else (simpleEscape kind).map fun c => (c,rest)
  | _ => none

def escapeStep (text : List Char) : List Char × List Char :=
  match escape text with
  | some (c,rest) => ([c],rest)
  | none => (text.take 1,text.tail)

/-- Every well-formed escape, read from the left, is its character, and all else is copied. -/
def decoded (text : List Char) : List Char := scan escapeStep text

/-- The two hexadecimal escapes: how many characters they take, and how they are read. -/
def HexKind (kind : Char) (width : Nat) (decode : List Char → Option Char) : Prop :=
  (kind = 'u' ∧ width = 4 ∧ decode = decodeU) ∨ (kind = 'x' ∧ width = 2 ∧ decode = decodeX)

/-- What the decoder comes to, from the left: no malformed escape is read as a number, and in what is taken with it no
well-formed one begins. -/
inductive Harmless : List Char → Prop
  | nil : Harmless []
  | escape {text rest : List Char} {c : Char} (well : escape text = some (c,rest)) : Harmless rest → Harmless text
  | copied {c : Char} {rest : List Char}
      (plain : c = '\\' → ∀ kind ∈ rest.head?, kind ≠ 'u' ∧ kind ≠ 'x' ∧ simpleEscape kind = none) :
      Harmless rest → Harmless (c :: rest)
  | malformed {kind : Char} {width : Nat} {decode : List Char → Option Char} {rest : List Char} (hex : HexKind kind width decode)
      (unread : decode (rest.take width) = none) (alone : ∀ i < width, Unescape.escape (rest.drop i) = none) :
      Harmless (rest.drop width) → Harmless ('\\' :: kind :: rest)

theorem convert_advances : Advances convertStep := by
  have taken (kind : Char) (width : Nat) (decode : List Char → Option Char) (rest : List Char) :
      (takeHex kind width decode rest).2.length ≤ rest.length := by
    rw [takeHex]
    split <;> exact (List.drop_sublist width rest).length_le
  intro c text
  cases text with
  | nil => exact Nat.le_refl _
  | cons kind rest =>
    rw [convertStep,List.length_cons]
    have first := taken 'u' 4 decodeU rest
    have second := taken 'x' 2 decodeX rest
    split
    · exact Nat.le_refl _
    · split
      · omega
      · split
        · omega
        · split
          · exact Nat.le_succ _
          · exact Nat.le_refl _

theorem escape_shorter {text rest : List Char} {c : Char} (well : escape text = some (c,rest)) :
    rest.length + 2 ≤ text.length := by
  rw [escape.eq_def] at well
  split at well
  · next kind tail =>
    have short (width : Nat) : (tail.drop width).length ≤ tail.length :=
      (List.drop_sublist width tail).length_le
    split at well
    · obtain ⟨_,_,same⟩ := Option.map_eq_some_iff.mp well
      cases same
      exact Nat.add_le_add_right (short 4) 2
    · split at well
      · obtain ⟨_,_,same⟩ := Option.map_eq_some_iff.mp well
        cases same
        exact Nat.add_le_add_right (short 2) 2
      · obtain ⟨_,_,same⟩ := Option.map_eq_some_iff.mp well
        cases same
        exact Nat.le_refl _
  · cases well

theorem escape_advances : Advances escapeStep := by
  intro c text
  rw [escapeStep]
  split
  · next well =>
    have shorter := escape_shorter well
    rw [List.length_cons] at shorter
    exact Nat.le_of_succ_le (Nat.le_of_succ_le_succ shorter)
  · exact Nat.le_refl _

section Numbers

theorem foldl_none (digits : List Char) :
    digits.foldl (fun number c => number.bind fun number => (hexDigit c).map (number * 16 + ·)) none = none := by
  induction digits with
  | nil => rfl
  | cons c digits ih => exact ih

theorem hexDigit_lt {c : Char} {value : Nat} (digit : hexDigit c = some value) : value < 16 := by
  rw [hexDigit] at digit
  split at digit
  · next range =>
    cases digit
    have most : c.toNat ≤ 57 := range.2
    omega
  · split at digit
    · next range =>
      cases digit
      have most : c.toNat ≤ 102 := range.2
      omega
    · split at digit
      · next range =>
        cases digit
        have most : c.toNat ≤ 70 := range.2
        omega
      · cases digit

/-- Where only digits stand, the integer is their number. -/
theorem hexCode_radix {width code : Nat} {text : List Char} (positive : 0 < width) (digits : hexCode width text = some code) :
    fromStrRadix (text.take width) = some code := by
  obtain ⟨full,number⟩ := Option.ite_none_right_eq_some.mp digits
  cases shape : text.take width with
  | nil =>
    rw [shape] at full
    exact absurd full (Nat.ne_of_lt positive)
  | cons c rest =>
    rw [shape] at number
    have unsigned : c ≠ '+' := by
      rintro rfl
      have nothing : hexNumber ('+' :: rest) = none := foldl_none rest
      rw [nothing] at number
      cases number
    have head : (c :: rest).head? ≠ some '+' := fun same => unsigned (Option.some.inj same)
    rw [fromStrRadix,if_neg head,if_neg (List.cons_ne_nil c rest)]
    exact number

theorem hexCode_two {code : Nat} {text : List Char} (digits : hexCode 2 text = some code) : code < 256 := by
  obtain ⟨full,number⟩ := Option.ite_none_right_eq_some.mp digits
  obtain ⟨c,d,shape⟩ := List.length_eq_two.mp full
  rw [shape] at number
  change ((hexDigit c).map (0 * 16 + ·)).bind (fun number => (hexDigit d).map (number * 16 + ·)) = some code at number
  obtain ⟨high,first,second⟩ := Option.bind_eq_some_iff.mp number
  obtain ⟨high',digit,rfl⟩ := Option.map_eq_some_iff.mp first
  obtain ⟨low,digit',rfl⟩ := Option.map_eq_some_iff.mp second
  have bound := hexDigit_lt digit
  have bound' := hexDigit_lt digit'
  omega

/-- One byte above 127 is no text. -/
theorem byteText_high {byte : UInt8} (high : 128 ≤ byte) : byteText byte = none := by
  refine if_neg fun whole => ?_
  cases shape : Utf8.lossy [byte] with
  | nil =>
    rw [shape] at whole
    cases whole
  | cons c text =>
    rw [shape,Utf8.encode_cons] at whole
    have sizes := congrArg List.length whole
    rw [List.length_append,String.length_utf8EncodeChar,List.length_singleton] at sizes
    have positive := c.utf8Size_pos
    have one : c.utf8Size = 1 := by omega
    have small : c.toNat < 128 := Nat.lt_succ_of_le (Char.utf8Size_eq_one_iff.mp one)
    rw [Utf8.encodeChar_ascii small] at whole
    obtain ⟨rfl,_⟩ := List.cons.inj whole
    rw [UInt8.le_iff_toNat_le,UInt8.toNat_ofNat'] at high
    change 128 ≤ c.toNat % 256 at high
    omega

theorem decodeX_latin {code : Nat} {hex : List Char} (number : fromStrRadix hex = some code) (small : code < 256) :
    decodeX hex = fromU32 code := by
  have valid : fromU32 code = some (Char.ofNat code) := if_pos (.inl (by omega))
  rw [decodeX,number,Option.map_some,valid,Option.getD_some]
  split
  · rfl
  · next high =>
    have byte : (128 : UInt8) ≤ UInt8.ofNat code := by
      rw [UInt8.le_iff_toNat_le,UInt8.toNat_ofNat']
      change 128 ≤ code % 256
      omega
    rw [byteText_high byte]

end Numbers

theorem escape_hex {kind : Char} {width : Nat} {decode : List Char → Option Char} (hex : HexKind kind width decode)
    {rest after : List Char} {c : Char} (well : escape ('\\' :: kind :: rest) = some (c,after)) :
    decode (rest.take width) = some c ∧ after = rest.drop width := by
  rcases hex with ⟨rfl,rfl,rfl⟩ | ⟨rfl,rfl,rfl⟩
  · rw [escape,if_pos rfl] at well
    obtain ⟨c,read,same⟩ := Option.map_eq_some_iff.mp well
    cases same
    obtain ⟨code,digits,scalar⟩ := Option.bind_eq_some_iff.mp read
    rw [decodeU,hexCode_radix (by decide) digits]
    exact ⟨scalar,rfl⟩
  · rw [escape,if_neg (by decide),if_pos rfl] at well
    obtain ⟨c,read,same⟩ := Option.map_eq_some_iff.mp well
    cases same
    obtain ⟨code,digits,scalar⟩ := Option.bind_eq_some_iff.mp read
    rw [decodeX_latin (hexCode_radix (by decide) digits) (hexCode_two digits)]
    exact ⟨scalar,rfl⟩

theorem convert_hex {kind : Char} {width : Nat} {decode : List Char → Option Char} (hex : HexKind kind width decode)
    (rest : List Char) : convertStep ('\\' :: kind :: rest) = takeHex kind width decode rest := by
  rcases hex with ⟨rfl,rfl,rfl⟩ | ⟨rfl,rfl,rfl⟩
  · rw [convertStep,if_neg (not_not_intro rfl),if_pos rfl]
  · rw [convertStep,if_neg (not_not_intro rfl),if_neg (by decide),if_pos rfl]

/-- A well-formed escape is read as what it stands for. -/
theorem convert_escape {text rest : List Char} {c : Char} (well : escape text = some (c,rest)) : convertStep text = ([c],rest) := by
  have shape : ∃ kind tail, text = '\\' :: kind :: tail := by
    rw [escape.eq_def] at well
    split at well
    · exact ⟨_,_,rfl⟩
    · cases well
  obtain ⟨kind,tail,rfl⟩ := shape
  by_cases unicode : kind = 'u'
  · have hex : HexKind kind 4 decodeU := .inl ⟨unicode,rfl,rfl⟩
    obtain ⟨read,rfl⟩ := escape_hex hex well
    rw [convert_hex hex,takeHex,read]
  · by_cases latin : kind = 'x'
    · have hex : HexKind kind 2 decodeX := .inr ⟨latin,rfl,rfl⟩
      obtain ⟨read,rfl⟩ := escape_hex hex well
      rw [convert_hex hex,takeHex,read]
    · rw [escape,if_neg unicode,if_neg latin] at well
      obtain ⟨c,simple,same⟩ := Option.map_eq_some_iff.mp well
      cases same
      rw [convertStep,if_neg (not_not_intro rfl),if_neg unicode,if_neg latin,simple]

/-- Where no well-formed escape begins, the text is copied. -/
theorem decoded_copied {count : Nat} {text : List Char} (alone : ∀ i < count, escape (text.drop i) = none) :
    decoded text = text.take count ++ decoded (text.drop count) := by
  induction count generalizing text with
  | zero => rfl
  | succ count ih =>
    cases text with
    | nil => rfl
    | cons c text =>
      have first : escape (c :: text) = none := alone 0 (Nat.succ_pos count)
      have rest := ih fun i below => alone (i + 1) (Nat.succ_lt_succ below)
      rw [decoded,scan_cons escape_advances,escapeStep,first,List.take_succ_cons,List.drop_succ_cons,List.cons_append]
      exact congrArg (c :: ·) rest

/-- A harmless text is decoded escape by escape. -/
theorem conver2unicode_decoded {value : List Char} (harmless : Harmless value) : conver2unicode value = decoded value := by
  induction harmless with
  | nil => rfl
  | @escape text rest c well _ ih =>
    cases text with
    | nil => cases well
    | cons first tail =>
      rw [conver2unicode,scan_cons convert_advances,convert_escape well,decoded,scan_cons escape_advances,escapeStep,well]
      exact congrArg (c :: ·) ih
  | @copied c rest plain _ ih =>
    have code : convertStep (c :: rest) = ([c],rest) := by
      cases rest with
      | nil => rfl
      | cons kind rest =>
        by_cases same : c = '\\'
        · obtain ⟨other,other',simple⟩ := plain same kind rfl
          rw [convertStep,if_neg (not_not_intro same),if_neg other,if_neg other',simple]
        · rw [convertStep,if_pos same]
    have none : escape (c :: rest) = .none := by
      cases read : escape (c :: rest) with
      | none => rfl
      | some found =>
        have shorter := escape_shorter read
        rw [convert_escape read] at code
        cases code
        rw [List.length_cons] at shorter
        omega
    rw [conver2unicode,scan_cons convert_advances,code,decoded,scan_cons escape_advances,escapeStep,none]
    exact congrArg (c :: ·) ih
  | @malformed kind width decode rest hex unread alone _ ih =>
    have code : convertStep ('\\' :: kind :: rest) = ('\\' :: kind :: rest.take width,rest.drop width) := by
      rw [convert_hex hex,takeHex,unread]
    have first : Unescape.escape ('\\' :: kind :: rest) = none := by
      cases read : Unescape.escape ('\\' :: kind :: rest) with
      | none => rfl
      | some found =>
        have value := (escape_hex hex read).1
        rw [unread] at value
        cases value
    have second : Unescape.escape (kind :: rest) = none := by
      rcases hex with ⟨rfl,_⟩ | ⟨rfl,_⟩ <;> rfl
    have copied : ∀ i < width + 2, Unescape.escape (('\\' :: kind :: rest).drop i) = none := by
      intro i below
      match i with
      | 0 => exact first
      | 1 => exact second
      | i + 2 => exact alone i (by omega)
    rw [conver2unicode,scan_cons convert_advances,code,decoded_copied copied]
    exact congrArg ('\\' :: kind :: rest.take width ++ ·) ih

theorem mixed_decoded : conver2unicode "\\u00e9\\xzz\\n".toList = "é\\xzz\n".toList := by
  have harmless : Harmless "\\u00e9\\xzz\\n".toList := by
    refine .escape (show escape _ = some ('é',"\\xzz\\n".toList) from by decide) ?_
    refine .malformed (.inr ⟨rfl,rfl,rfl⟩) (by decide) (by decide) ?_
    exact .escape (show escape _ = some ('\n',[]) from by decide) .nil
  have same := conver2unicode_decoded harmless
  rw [same]
  decide

/-- A malformed escape takes the characters of the next one with it. -/
theorem short_escape_swallows : ¬ ∀ value, conver2unicode value = decoded value := by
  intro all
  exact absurd (all "\\u12\\u0041".toList) (by decide)

end Qdrust.Expression.Unescape
