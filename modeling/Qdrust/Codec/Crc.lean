import Qdrust.Library.Remainder

/-! The checksums of `zlib` and `binascii`: one from a table of 256 words, one bit by bit. -/
namespace Qdrust.Codec.Crc
open Library.Remainder Polynomial

def polynomial : BitVec 32 := 0xEDB88320#32

/-- One of the eight rounds for an entry of the table. -/
def round (crc : BitVec 32) : BitVec 32 := if crc &&& 1#32 ≠ 0#32 then polynomial ^^^ crc >>> 1 else crc >>> 1

def table : Vector (BitVec 32) 256 := Vector.ofFn fun index : Fin 256 => repeated round 8 (BitVec.ofNat 32 index)

theorem masked_small (x : BitVec 32) : (x &&& 0xFF#32).toNat < 256 := by
  rw [BitVec.toNat_and]
  exact Nat.and_lt_two_pow _ (by decide : 0xFF < 2 ^ 8)

def updated (crc : BitVec 32) (byte : BitVec 8) : BitVec 32 :=
  table.get ⟨((crc ^^^ byte.setWidth 32) &&& 0xFF#32).toNat,masked_small _⟩ ^^^ crc >>> 8

def crc32 (data : List (BitVec 8)) : BitVec 32 := data.foldl updated 0xFFFFFFFF#32 ^^^ 0xFFFFFFFF#32

/-- The bits of a message, those of each byte from the lowest. -/
def bits (data : List (BitVec 8)) : List Bool := data.flatMap fun byte => (List.range 8).map byte.getLsbD

/-- The reflected checksum, fed with one bit at a time. -/
def bitSerial (data : List (BitVec 8)) : BitVec 32 :=
  (bits data).foldl (fed polynomial) 0xFFFFFFFF#32 ^^^ 0xFFFFFFFF#32

theorem round_right (crc : BitVec 32) : round crc = right polynomial crc := by
  unfold round right
  have bit : crc &&& 1#32 ≠ 0#32 ↔ crc.getLsbD 0 = true := by
    rw [show 1#32 = BitVec.twoPow 32 0 from rfl,BitVec.and_twoPow]
    cases crc.getLsbD 0 <;> decide
  exact if_congr bit rfl rfl

theorem table_get (x : BitVec 32) :
    table.get ⟨(x &&& 0xFF#32).toNat,masked_small x⟩ = repeated (right polynomial) 8 (x &&& 0xFF#32) := by
  have rounds : round = right polynomial := funext round_right
  have entry : table.get ⟨(x &&& 0xFF#32).toNat,masked_small x⟩ =
      repeated round 8 (BitVec.ofNat 32 (x &&& 0xFF#32).toNat) := Vector.getElem_ofFn (masked_small x)
  rw [entry,rounds,BitVec.ofNat_toNat,BitVec.setWidth_eq]

theorem byte_gone (byte : BitVec 8) : byte.setWidth 32 >>> 8 = 0#32 := by
  ext i inside
  rw [BitVec.getElem_ushiftRight,BitVec.getLsbD_setWidth,BitVec.getLsbD_of_ge byte (8 + i) (by omega)]
  simp

/-- A look-up is eight shifts of the register with the byte in it. -/
theorem updated_serial (crc : BitVec 32) (byte : BitVec 8) :
    updated crc byte = ((List.range 8).map byte.getLsbD).foldl (fed polynomial) crc := by
  have masked : ∀ i < 8, ((crc ^^^ byte.setWidth 32) &&& 0xFF#32).getLsbD i = (crc ^^^ byte.setWidth 32).getLsbD i := by
    intro i small
    have ones : ∀ i < 8, (0xFF#32).getLsbD i = true := by decide
    rw [BitVec.getLsbD_and,ones i small,Bool.and_true]
  have gone : ((crc ^^^ byte.setWidth 32) &&& 0xFF#32) >>> 8 = 0#32 := by
    rw [BitVec.ushiftRight_and_distrib,show 0xFF#32 >>> 8 = 0#32 by decide,BitVec.and_zero]
  have fedBits : (List.range 8).map byte.getLsbD = (List.range 8).map (byte.setWidth 32).getLsbD := by
    refine List.map_congr_left fun i inside => ?_
    rw [BitVec.getLsbD_setWidth,decide_eq_true (show i < 32 by have := List.mem_range.mp inside; omega),Bool.true_and]
  have split := repeated_split polynomial 8 (crc ^^^ byte.setWidth 32) _ masked gone
  rw [BitVec.ushiftRight_xor_distrib,byte_gone,BitVec.xor_zero] at split
  unfold updated
  rw [table_get,fedBits,fed_word,byte_gone,BitVec.xor_zero,split]

theorem crc32_serial (data : List (BitVec 8)) : crc32 data = bitSerial data := by
  unfold crc32 bitSerial bits
  rw [List.foldl_flatMap]
  have steps : updated = fun crc byte => ((List.range 8).map byte.getLsbD).foldl (fed polynomial) crc := by
    funext crc byte
    exact updated_serial crc byte
  rw [steps]

def hqxRound (crc : BitVec 16) : BitVec 16 := if crc &&& 0x8000#16 ≠ 0#16 then crc <<< 1 ^^^ 0x1021#16 else crc <<< 1

def hqxByte (crc : BitVec 16) (byte : BitVec 8) : BitVec 16 := repeated hqxRound 8 (crc ^^^ byte.setWidth 16 <<< 8)

def crcHqx (data : List (BitVec 8)) (initial : BitVec 16) : BitVec 16 := data.foldl hqxByte initial

theorem crcHqx_append (a b : List (BitVec 8)) (initial : BitVec 16) :
    crcHqx (a ++ b) initial = crcHqx b (crcHqx a initial) := List.foldl_append

/-- The polynomial of a message, the highest bit of the first byte first. -/
noncomputable def message : List (BitVec 8) → (ZMod 2)[X]
  | [] => 0
  | byte :: rest => poly byte * X ^ (8 * rest.length) + message rest

theorem hqxRound_left (crc : BitVec 16) : hqxRound crc = left 0x1021#16 crc := by
  unfold hqxRound left
  have bit : crc &&& 0x8000#16 ≠ 0#16 ↔ crc.getLsbD 15 = true := by
    rw [show 0x8000#16 = BitVec.twoPow 16 15 from rfl,BitVec.and_twoPow]
    cases crc.getLsbD 15 <;> decide
  exact if_congr bit rfl rfl

theorem hqx_divisor : divisor 0x1021#16 = X ^ 16 + X ^ 12 + X ^ 5 + 1 := by
  have bits : poly 0x1021#16 = X ^ 12 + X ^ 5 + 1 := by
    unfold poly
    simp only [Finset.sum_range_succ,Finset.sum_range_zero]
    simp
    ring
  unfold divisor
  rw [bits]
  ring

/-- One byte: the register and the byte, moved up by eight bits. -/
theorem hqxByte_dvd (crc : BitVec 16) (byte : BitVec 8) :
    divisor 0x1021#16 ∣ X ^ 8 * poly crc + X ^ 16 * poly byte - poly (hqxByte crc byte) := by
  have rounds : hqxRound = left 0x1021#16 := funext hqxRound_left
  have shifted := poly_repeated (by decide) 0x1021#16 (crc ^^^ byte.setWidth 16 <<< 8) 8
  rw [poly_xor,poly_setWidth byte (by decide)] at shifted
  unfold hqxByte
  rw [rounds]
  have same : X ^ 8 * (poly crc + X ^ 8 * poly byte) = X ^ 8 * poly crc + X ^ 16 * poly byte := by ring
  rw [← same]
  exact shifted

/-- The register is congruent to the message behind what it began with. -/
theorem crcHqx_dvd (data : List (BitVec 8)) (initial : BitVec 16) :
    divisor 0x1021#16 ∣ X ^ (8 * data.length) * poly initial + X ^ 16 * message data - poly (crcHqx data initial) := by
  induction data generalizing initial with
  | nil =>
    refine ⟨0,?_⟩
    change X ^ 0 * poly initial + X ^ 16 * 0 - poly initial = _
    ring
  | cons byte rest ih =>
    have first := dvd_mul_of_dvd_right (hqxByte_dvd initial byte) (X ^ (8 * rest.length))
    have later := ih (hqxByte initial byte)
    have whole := dvd_add first later
    have same : X ^ (8 * rest.length) * (X ^ 8 * poly initial + X ^ 16 * poly byte - poly (hqxByte initial byte)) +
        (X ^ (8 * rest.length) * poly (hqxByte initial byte) + X ^ 16 * message rest -
          poly (crcHqx rest (hqxByte initial byte))) =
        X ^ (8 * (byte :: rest).length) * poly initial + X ^ 16 * message (byte :: rest) -
          poly (crcHqx (byte :: rest) initial) := by
      rw [List.length_cons,message]
      change _ = _ - poly (crcHqx rest (hqxByte initial byte))
      ring
    rw [← same]
    exact whole

/-- The table is the bit-serial checksum. The other checksum continues over a concatenation, and is the remainder of
the message moved up by 16 bits, behind the initial value. -/
theorem checksums (data : List (BitVec 8)) : crc32 data = bitSerial data ∧
    (∀ more initial, crcHqx (data ++ more) initial = crcHqx more (crcHqx data initial)) ∧
    (∀ initial, poly (crcHqx data initial) =
      (X ^ (8 * data.length) * poly initial + X ^ 16 * message data) %ₘ (X ^ 16 + X ^ 12 + X ^ 5 + 1)) ∧
    poly (crcHqx data 0#16) = (X ^ 16 * message data) %ₘ (X ^ 16 + X ^ 12 + X ^ 5 + 1) := by
  have division (initial : BitVec 16) : poly (crcHqx data initial) =
      (X ^ (8 * data.length) * poly initial + X ^ 16 * message data) %ₘ (X ^ 16 + X ^ 12 + X ^ 5 + 1) := by
    rw [← hqx_divisor]
    exact (remainder_of_dvd (crcHqx_dvd data initial)).symm
  refine ⟨crc32_serial data,crcHqx_append data,division,?_⟩
  have zero : poly (0#16) = 0 := by
    ext n
    rw [coeff_poly,BitVec.getLsbD_zero]
    rfl
  rw [division,zero,mul_zero,zero_add]

end Qdrust.Codec.Crc
