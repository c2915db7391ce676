import Qdrust.Library.Utf8

/-! Texts that are cut at the offsets of their bytes. A cut inside a character is none. -/
namespace Qdrust.Library.Slices
open Utf8

/-- The number of bytes of a text. -/
def size (text : List Char) : Nat := (encode text).length

/-- A text cut behind its first bytes. -/
def cutAt : List Char → Nat → Option (List Char × List Char)
  | text,0 => some ([],text)
  | [],_ + 1 => none
  | c :: text,n + 1 =>
    if n + 1 < c.utf8Size then none else (cutAt text (n + 1 - c.utf8Size)).map fun parts => (c :: parts.1,parts.2)

/-- `&text[start..stop]`. -/
def slice (text : List Char) (start stop : Nat) : Option (List Char) :=
  (cutAt text start).bind fun parts => if stop < start then none else (cutAt parts.2 (stop - start)).map Prod.fst

/-- `&text[start..]`. -/
def sliceFrom (text : List Char) (start : Nat) : Option (List Char) := (cutAt text start).map Prod.snd

/-- A place between two characters of a text, or one of its ends. -/
def Between (text : List Char) (place : Nat) : Prop := ∃ front back, text = front ++ back ∧ size front = place

/-- Where the first character of a kind begins. -/
def findChar (p : Char → Bool) : List Char → Option Nat
  | [] => none
  | c :: text => if p c then some 0 else (findChar p text).map (· + c.utf8Size)

/-- Where a pattern begins. -/
def findText (pattern : List Char) : List Char → Option Nat
  | [] => if pattern = [] then some 0 else none
  | c :: text => if pattern <+: c :: text then some 0 else (findText pattern text).map (· + c.utf8Size)

theorem size_cons (c : Char) (text : List Char) : size (c :: text) = c.utf8Size + size text := by
  rw [size,encode_cons,List.length_append,String.length_utf8EncodeChar]
  rfl

theorem size_append (left right : List Char) : size (left ++ right) = size left + size right := by
  rw [size,encode_append,List.length_append]
  rfl

theorem length_le_size (text : List Char) : text.length ≤ size text := by
  induction text with
  | nil => exact Nat.le_refl 0
  | cons c text ih =>
    have positive := c.utf8Size_pos
    rw [size_cons,List.length_cons]
    omega

/-- Every cut between two characters is one. -/
theorem cutAt_size (front back : List Char) : cutAt (front ++ back) (size front) = some (front,back) := by
  induction front with
  | nil => cases back <;> rfl
  | cons c front ih =>
    have positive := c.utf8Size_pos
    obtain ⟨n,more⟩ := Nat.exists_eq_add_of_lt (show 0 < size (c :: front) by rw [size_cons]; omega)
    rw [Nat.zero_add] at more
    have left : n + 1 - c.utf8Size = size front := by
      rw [← more,size_cons]
      omega
    have enough : ¬ n + 1 < c.utf8Size := by
      rw [← more,size_cons]
      omega
    rw [more,List.cons_append,cutAt,if_neg enough,left,ih]
    rfl

/-- A slice whose ends are between characters. -/
theorem slice_size (front mid back : List Char) : slice (front ++ mid ++ back) (size front) (size (front ++ mid)) = some mid := by
  have ordered : ¬ size (front ++ mid) < size front := by
    rw [size_append]
    omega
  have width : size (front ++ mid) - size front = size mid := by
    rw [size_append]
    omega
  rw [slice,List.append_assoc,cutAt_size,Option.bind_some,if_neg ordered,width,cutAt_size]
  rfl

theorem slice_start (front back : List Char) : slice (front ++ back) 0 (size front) = some front := slice_size [] front back

theorem slice_end (front back : List Char) : slice (front ++ back) (size front) (size (front ++ back)) = some back := by
  have cut := slice_size front back []
  rwa [List.append_nil] at cut

theorem sliceFrom_size (front back : List Char) : sliceFrom (front ++ back) (size front) = some back := by
  rw [sliceFrom,cutAt_size]
  rfl

theorem size_singleton (c : Char) : size [c] = c.utf8Size := by
  rw [size_cons,size,encode_nil,List.length_nil,Nat.add_zero]

theorem size_snoc (front : List Char) (c : Char) : size front + c.utf8Size = size (front ++ [c]) := by
  rw [size_append,size_singleton]

theorem size_pos {text : List Char} : 0 < size text ↔ text ≠ [] := by
  cases text with
  | nil => exact ⟨fun positive => absurd positive (Nat.lt_irrefl 0),fun other => absurd rfl other⟩
  | cons c text =>
    have positive := c.utf8Size_pos
    rw [size_cons]
    exact ⟨fun _ => List.cons_ne_nil c text,fun _ => by omega⟩

theorem between_size (front back : List Char) : Between (front ++ back) (size front) := ⟨front,back,rfl,rfl⟩

/-- A place behind some more characters of the text. -/
theorem between_take (front rest : List Char) (n : Nat) : Between (front ++ rest) (size (front ++ rest.take n)) :=
  ⟨front ++ rest.take n,rest.drop n,by rw [List.append_assoc,List.take_append_drop],rfl⟩

/-- A character that is found begins where what precedes it ends. -/
theorem findChar_takeWhile (p : Char → Bool) (text : List Char) :
    (findChar p text).getD (size text) = size (text.takeWhile fun c => !p c) := by
  induction text with
  | nil => rfl
  | cons c text ih =>
    rw [findChar]
    cases is : p c with
    | true => simp [is,size]
    | false =>
      rw [if_neg Bool.false_ne_true,List.takeWhile_cons_of_pos (by simp [is]),size_cons,size_cons,← ih]
      cases findChar p text with
      | none => rfl
      | some found => exact Nat.add_comm found c.utf8Size

section Bytes

/-- The first byte of a text, where it is that of an ASCII character. -/
theorem first_ascii {text : List Char} {byte : UInt8} (low : byte < 128) (first : (encode text)[0]? = some byte) :
    ∃ c rest, text = c :: rest ∧ c.toNat = byte.toNat := by
  cases text with
  | nil => cases first
  | cons c text =>
    refine ⟨c,text,rfl,?_⟩
    by_cases small : c.toNat < 128
    · rw [encode_cons,encodeChar_ascii small] at first
      have same : UInt8.ofNat c.toNat = byte := Option.some.inj first
      rw [← same,UInt8.toNat_ofNat']
      omega
    · have some := encodeChar_ne_nil c
      obtain ⟨b,bytes,cut⟩ := List.exists_cons_of_ne_nil some
      have high := encodeChar_high small b (by rw [cut]; exact List.mem_cons_self)
      rw [encode_cons,cut] at first
      have same : b = byte := Option.some.inj first
      rw [same] at high
      exact absurd low (UInt8.not_lt.mpr high)

/-- The bytes of a character behind its first are none of an ASCII character. -/
theorem later_high {c : Char} {k : Nat} {byte : UInt8} (later : 0 < k) (is : (String.utf8EncodeChar c)[k]? = some byte) : 128 ≤ byte := by
  by_cases small : c.toNat < 128
  · rw [encodeChar_ascii small] at is
    obtain ⟨bound,_⟩ := List.getElem?_eq_some_iff.mp is
    exact absurd bound (by simp; omega)
  · exact encodeChar_high small byte (List.mem_of_getElem? is)

end Bytes

end Qdrust.Library.Slices
