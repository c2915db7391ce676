import Qdrust.Library.Chunks
import Qdrust.Library.Machine

/-! Hexadecimal digits with a separator between groups of bytes. -/
namespace Qdrust.Codec.HexSep
open Library Chunks Machine

def hexByte (byte : UInt8) : List Char := [Nat.digitChar (byte.toNat / 16),Nat.digitChar (byte.toNat % 16)]

/-- `hex::encode`. -/
def hexEncode (data : List UInt8) : List Char := data.flatMap hexByte

/-- The parts that are cut off the end, the last one first. A `none` is a loop that does not end: with groups of a digit
or more it runs at most once for every digit. -/
def cutEnd (group : Nat) (encoded : List Char) : Nat → Nat → Option (List (List Char))
  | _, 0 => some []
  | 0, _ + 1 => none
  | fuel + 1, stop + 1 =>
    let start := stop + 1 - group
    (cutEnd group encoded fuel start).map (((encoded.take (stop + 1)).drop start) :: ·)

/-- `hex_with_sep`. The doubling of the width may not fit, and `chunks` panics for a width of zero. -/
def hexWithSep (build : Build) (data : List UInt8) (sep : List Char) (bytesPerSep : Int64) : Option (List Char) :=
  let encoded := hexEncode data
  if bytesPerSep = 0 ∨ encoded = [] then some encoded
  else (fit build 64 (bytesPerSep.toInt.natAbs * 2)).bind fun group =>
    if 0 < bytesPerSep then (cutEnd group encoded encoded.length encoded.length).map fun parts => sep.intercalate parts.reverse
    else if group = 0 then none
    else some (sep.intercalate (chunks group encoded))

def isHexDigit (c : Char) : Bool :=
  ('0' ≤ c && c ≤ '9') || ('a' ≤ c && c ≤ 'f') || ('A' ≤ c && c ≤ 'F')

/-- The digits of the data with separators between groups of bytes, which are full but for the one at the end that the
sign names. -/
structure Separated (data : List UInt8) (sep : List Char) (bytesPerSep : Int64) (output : List Char) : Prop where
  digits : output.filter isHexDigit = hexEncode data
  grouped : bytesPerSep ≠ 0 → ∃ groups, groups.flatten = data ∧ output = sep.intercalate (groups.map hexEncode) ∧
    Grouped bytesPerSep.toInt.natAbs (if 0 < bytesPerSep then groups.reverse else groups)

theorem hexByte_length (byte : UInt8) : (hexByte byte).length = 2 := rfl

theorem hexByte_digits (byte : UInt8) : ∀ c ∈ hexByte byte, isHexDigit c = true := by
  have every : ∀ n < 16, isHexDigit (Nat.digitChar n) = true := by decide
  have small := byte.toNat_lt
  intro c inside
  rcases List.mem_cons.mp inside with rfl | inside
  · exact every _ (by omega)
  · rw [List.mem_singleton.mp inside]
    exact every _ (by omega)

theorem hexEncode_digits (data : List UInt8) : (hexEncode data).filter isHexDigit = hexEncode data := by
  refine List.filter_eq_self.mpr fun c inside => ?_
  obtain ⟨byte,_,there⟩ := List.mem_flatMap.mp inside
  exact hexByte_digits byte c there

theorem hexEncode_eq_nil {data : List UInt8} : hexEncode data = [] ↔ data = [] := by
  cases data with
  | nil => exact iff_of_true rfl rfl
  | cons byte data => exact iff_of_false (List.cons_ne_nil _ _) (List.cons_ne_nil _ _)

theorem hexEncode_flatten (groups : List (List UInt8)) : (groups.map hexEncode).flatten = hexEncode groups.flatten := by
  induction groups with
  | nil => rfl
  | cons group groups ih =>
    rw [List.map_cons,List.flatten_cons,List.flatten_cons,ih,hexEncode,hexEncode,hexEncode,List.flatMap_append]

/-- The loop cuts the digits, read from their end, into groups. -/
theorem cutEnd_eq {group : Nat} (positive : 0 < group) (encoded : List Char) {fuel stop : Nat} (inside : stop ≤ encoded.length)
    (enough : stop ≤ fuel) :
    cutEnd group encoded fuel stop = some ((chunks group (encoded.take stop).reverse).map List.reverse) := by
  induction fuel generalizing stop with
  | zero =>
    rw [Nat.le_zero.mp enough]
    rfl
  | succ fuel ih =>
    cases stop with
    | zero => rfl
    | succ stop =>
      have some : (encoded.take (stop + 1)).reverse ≠ [] := by
        refine List.ne_nil_of_length_pos ?_
        rw [List.length_reverse,List.length_take]
        omega
      have cut : (encoded.take (stop + 1)).length = stop + 1 := by
        rw [List.length_take]
        omega
      have front : (encoded.take (stop + 1)).take (stop + 1 - group) = encoded.take (stop + 1 - group) := by
        rw [List.take_take,Nat.min_eq_left (Nat.sub_le _ _)]
      rw [cutEnd,ih (show stop + 1 - group ≤ encoded.length by omega) (show stop + 1 - group ≤ fuel by omega),chunks_cut positive some,
        List.take_reverse,List.drop_reverse,cut,front,List.map_cons,List.reverse_reverse]
      rfl

section Laws

variable {data : List UInt8} {sep : List Char} {bytesPerSep : Int64}

theorem hexWithSep_plain (build : Build) (plain : bytesPerSep = 0 ∨ hexEncode data = []) :
    hexWithSep build data sep bytesPerSep = some (hexEncode data) := if_pos plain

theorem separated (foreign : ∀ c ∈ sep, isHexDigit c = false) (groups : List (List UInt8)) (whole : groups.flatten = data)
    (grouped : Grouped bytesPerSep.toInt.natAbs (if 0 < bytesPerSep then groups.reverse else groups)) :
    Separated data sep bytesPerSep (sep.intercalate (groups.map hexEncode)) where
  digits := by rw [filter_intercalate foreign,hexEncode_flatten,whole,hexEncode_digits]
  grouped := fun _ => ⟨groups,whole,rfl,grouped⟩

/-- Groups of whole bytes, from the end of the data. -/
theorem cutEnd_bytes {size : Nat} (positive : 0 < size) (data : List UInt8) :
    ((chunks (size * 2) (hexEncode data).reverse).map List.reverse).reverse =
      (((chunks size data.reverse).map List.reverse).reverse).map hexEncode := by
  have turned : (hexEncode data).reverse = data.reverse.flatMap fun byte => (hexByte byte).reverse := by
    rw [hexEncode,List.reverse_flatMap]
    rfl
  have each (byte : UInt8) : ((hexByte byte).reverse).length = 2 := by rw [List.length_reverse,hexByte_length]
  rw [turned,chunks_flatMap positive (by decide) each,List.map_map,List.map_reverse,List.map_map]
  congr 1
  refine List.map_congr_left fun group _ => ?_
  rw [Function.comp_apply,Function.comp_apply,hexEncode,List.reverse_flatMap]
  refine List.flatMap_congr fun byte _ => ?_
  exact List.reverse_reverse _

/-- The call returns groups of bytes for all widths but the least, whose double does not fit. -/
theorem hex_with_sep_iff (build : Build) (data : List UInt8) {sep : List Char} (foreign : ∀ c ∈ sep, isHexDigit c = false)
    (bytesPerSep : Int64) :
    (∃ output, hexWithSep build data sep bytesPerSep = some output ∧ Separated data sep bytesPerSep output) ↔
      data = [] ∨ bytesPerSep ≠ Int64.minValue := by
  by_cases empty : data = []
  · subst empty
    refine iff_of_true ⟨[],hexWithSep_plain build (.inr rfl),rfl,fun _ => ⟨[],rfl,rfl,?_⟩⟩ (.inl rfl)
    split <;> exact ⟨nofun,nofun⟩
  rw [or_iff_right empty]
  have digits : hexEncode data ≠ [] := fun nothing => empty (hexEncode_eq_nil.mp nothing)
  by_cases whole : bytesPerSep = 0
  · subst whole
    refine iff_of_true ⟨_,hexWithSep_plain build (.inl rfl),hexEncode_digits data,fun nonzero => absurd rfl nonzero⟩ (by decide)
  unfold hexWithSep
  dsimp only
  rw [if_neg (by simp [whole,digits])]
  have positive : 0 < bytesPerSep.toInt.natAbs := by
    refine Int.natAbs_pos.mpr fun zero => whole (Int64.toInt_inj.mp ?_)
    rw [zero]
    rfl
  by_cases least : bytesPerSep = Int64.minValue
  · subst least
    refine iff_of_false ?_ fun other => other rfl
    rintro ⟨output,found,_⟩
    cases build <;> cases found
  refine iff_of_true ?_ least
  have fits : bytesPerSep.toInt.natAbs * 2 < 2 ^ 64 := by
    have above := Int64.le_toInt bytesPerSep
    have below := Int64.toInt_lt bytesPerSep
    have other : bytesPerSep.toInt ≠ Int64.minValue.toInt := fun same => least (Int64.toInt_inj.mp same)
    have bound : Int64.minValue.toInt = -2 ^ 63 := by decide
    omega
  rw [fit_inside build fits,Option.bind_some]
  have doubled : 0 < bytesPerSep.toInt.natAbs * 2 := by omega
  by_cases right : 0 < bytesPerSep
  · refine ⟨_,?_,separated foreign ((chunks bytesPerSep.toInt.natAbs data.reverse).map List.reverse).reverse ?_ ?_⟩
    · rw [if_pos right,cutEnd_eq doubled _ (Nat.le_refl _) (Nat.le_refl _),List.take_length,Option.map_some,cutEnd_bytes positive]
    · rw [← List.reverse_flatten,flatten_chunks positive,List.reverse_reverse]
    · rw [if_pos right,List.reverse_reverse]
      exact (chunks_grouped positive data.reverse).map fun _ => List.length_reverse
  · refine ⟨_,?_,separated foreign (chunks bytesPerSep.toInt.natAbs data) (flatten_chunks positive data) ?_⟩
    · rw [if_neg right,if_neg (by omega),hexEncode,chunks_flatMap positive (by decide) hexByte_length]
      rfl
    · rw [if_neg right]
      exact chunks_grouped positive data

theorem hex_colons : hexWithSep .debug [0x12,0x34,0x56] [':'] 2 = some ['1','2',':','3','4','5','6'] ∧
    ∃ output, hexWithSep .debug [0x12,0x34,0x56] [':'] 2 = some output ∧ Separated [0x12,0x34,0x56] [':'] 2 output :=
  ⟨by decide,(hex_with_sep_iff .debug [0x12,0x34,0x56] (List.forall_mem_singleton.mpr (by decide)) 2).mpr (.inr (by decide))⟩

/-- The double of the least width is 2 ^ 64. -/
theorem hex_least : ¬∀ build data sep bytesPerSep, (∀ c ∈ sep, isHexDigit c = false) →
    ∃ output, hexWithSep build data sep bytesPerSep = some output ∧ Separated data sep bytesPerSep output := by
  intro claimed
  obtain ⟨_,found,_⟩ := claimed .release [0] [':'] Int64.minValue (List.forall_mem_singleton.mpr (by decide))
  have panics : hexWithSep .release [0] [':'] Int64.minValue = none := by decide
  rw [panics] at found
  cases found

end Laws
end Qdrust.Codec.HexSep
