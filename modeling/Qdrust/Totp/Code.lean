import Mathlib.Tactic.NormNum
import Qdrust.Library.Machine
import Qdrust.Library.Numeral
import Qdrust.Totp.Base32

/-! The one-time code of a secret at a time, and the value that the standard gives it. The
hash is a parameter, of which only the length of a digest is known. -/
namespace Qdrust.Totp
open Library Machine Numeral

inductive Algorithm where
  | sha1
  | sha256
  | sha512

def Algorithm.size : Algorithm → Nat
  | .sha1 => 20
  | .sha256 => 32
  | .sha512 => 64

/-- The message authentication code of a key and a message. -/
structure Hmac where
  digest : Algorithm → List UInt8 → List UInt8 → List UInt8
  sized : ∀ algorithm key message, (digest algorithm key message).length = algorithm.size

/-- An error that is returned, or a stop of the program. -/
inductive Failure where
  | refused (message : String)
  | panicked
deriving DecidableEq

/-- `to_ascii_lowercase`. -/
def lower (ch : Char) : Char :=
  if 'A'.toNat ≤ ch.toNat ∧ ch.toNat ≤ 'Z'.toNat then Char.ofNat (ch.toNat + 32) else ch

def lowercase (name : String) : String := String.ofList (name.toList.map lower)

def algorithmOf (name : String) : Option Algorithm :=
  if lowercase name = "sha1" then some .sha1
  else if lowercase name = "sha256" then some .sha256
  else if lowercase name = "sha512" then some .sha512
  else none

/-- `to_be_bytes` of a counter. -/
def toBeBytes (counter : UInt64) : List UInt8 := (numeral 256 8 counter.toNat).map UInt8.ofNat

/-- The truncation of a digest, `none` where it is indexed out of its bounds. -/
def truncate (digest : List UInt8) : Option UInt32 := do
  let last ← digest.getLast?
  let offset := (last &&& 0x0f).toNat
  let first ← digest[offset]?
  let second ← digest[offset + 1]?
  let third ← digest[offset + 2]?
  let fourth ← digest[offset + 3]?
  return ((first.toUInt32 &&& 0x7f) <<< 24) ||| (second.toUInt32 <<< 16) ||| (third.toUInt32 <<< 8) ||| fourth.toUInt32

/-- The last digits of a number, padded with zeros. -/
def lastDigits (build : Build) (digits : Nat) (binary : UInt32) : Except Failure String :=
  match fit build 32 (10 ^ digits) with
  | none => .error .panicked
  | some modulus => .ok (String.ofList (List.leftpad digits '0' (toString (binary.toNat % modulus)).toList))

/-- `code`. -/
def code (build : Build) (hmac : Hmac) (secret : String) (digits : Nat) (period : UInt64) (algorithm : String)
    (time : UInt64) : Except Failure String :=
  if ¬(6 ≤ digits ∧ digits ≤ 10) then .error (.refused "totp digits must be between 6 and 10")
  else if period = 0 then .error (.refused "totp period must be positive")
  else match decodeBase32 secret with
    | .error message => .error (.refused message)
    | .ok key => match algorithmOf algorithm with
      | none => .error (.refused ("unsupported totp algorithm: " ++ lowercase algorithm))
      | some algorithm => match truncate (hmac.digest algorithm key (toBeBytes (time / period))) with
        | none => .error .panicked
        | some binary => lastDigits build digits binary

section Standard

/-- The number of 31 bits that a digest is truncated to. -/
def truncated (digest : List UInt8) : Nat :=
  value 256 (((digest.drop ((digest.getLastD 0).toNat % 16)).take 4).map UInt8.toNat) % 2 ^ 31

/-- The value of a counter, in a fixed number of decimal digits. -/
def hotp (hmac : Hmac) (algorithm : Algorithm) (key : List UInt8) (digits counter : Nat) : String :=
  let message := (numeral 256 8 counter).map UInt8.ofNat
  String.ofList ((numeral 10 digits (truncated (hmac.digest algorithm key message) % 10 ^ digits)).map Nat.digitChar)

/-- The value at a time. -/
def totp (hmac : Hmac) (algorithm : Algorithm) (key : List UInt8) (digits period time : Nat) : String :=
  hotp hmac algorithm key digits (time / period)

end Standard

/-- Two numbers side by side. -/
theorem beside (high low width : Nat) (fits : low < 2 ^ width) : high <<< width ||| low = high * 2 ^ width + low := by
  rw [← Nat.shiftLeft_add_eq_or_of_lt fits,Nat.shiftLeft_eq]

theorem window_number (first second third fourth : UInt8) :
    (((first.toUInt32 &&& 0x7f) <<< 24) ||| (second.toUInt32 <<< 16) ||| (third.toUInt32 <<< 8) ||| fourth.toUInt32).toNat =
      value 256 [first.toNat,second.toNat,third.toNat,fourth.toNat] % 2 ^ 31 := by
  have a := first.toNat_lt
  have b := second.toNat_lt
  have c := third.toNat_lt
  have d := fourth.toNat_lt
  have masked : first.toNat &&& 127 = first.toNat % 128 := Nat.and_two_pow_sub_one_eq_mod first.toNat 7
  have number : (((first.toUInt32 &&& 0x7f) <<< 24) ||| (second.toUInt32 <<< 16) ||| (third.toUInt32 <<< 8) |||
      fourth.toUInt32).toNat = (first.toNat % 128) <<< 24 ||| (second.toNat <<< 16 ||| (third.toNat <<< 8 ||| fourth.toNat)) := by
    have front : (first.toNat % 128) <<< 24 < 2 ^ 32 := by rw [Nat.shiftLeft_eq]; omega
    have middle : second.toNat <<< 16 < 2 ^ 32 := by rw [Nat.shiftLeft_eq]; omega
    have back : third.toNat <<< 8 < 2 ^ 32 := by rw [Nat.shiftLeft_eq]; omega
    simp only [UInt32.toNat_or,UInt32.toNat_shiftLeft,UInt32.toNat_and,UInt8.toNat_toUInt32]
    change (first.toNat &&& 127) <<< 24 % 2 ^ 32 ||| second.toNat <<< 16 % 2 ^ 32 ||| third.toNat <<< 8 % 2 ^ 32 ||| fourth.toNat = _
    rw [masked,Nat.mod_eq_of_lt front,Nat.mod_eq_of_lt middle,Nat.mod_eq_of_lt back,Nat.or_assoc,Nat.or_assoc]
  rw [number,beside third.toNat fourth.toNat 8 d,beside second.toNat _ 16 (by omega),beside _ _ 24 (by omega)]
  simp only [value,List.foldl_cons,List.foldl_nil]
  omega

theorem truncate_truncated {digest : List UInt8} (long : 20 ≤ digest.length) :
    ∃ binary, truncate digest = some binary ∧ binary.toNat = truncated digest := by
  have some : digest ≠ [] := by
    rintro rfl
    exact absurd long (by decide)
  have last : digest.getLast? = .some (digest.getLast some) := List.getLast?_eq_some_getLast some
  have offset : (digest.getLast some &&& 0x0f).toNat = (digest.getLast some).toNat % 16 := by
    rw [UInt8.toNat_and]
    exact Nat.and_two_pow_sub_one_eq_mod _ 4
  have small : (digest.getLast some).toNat % 16 + 3 < digest.length := by omega
  have window : (digest.drop ((digest.getLast some).toNat % 16)).take 4 =
      [digest[(digest.getLast some).toNat % 16],digest[(digest.getLast some).toNat % 16 + 1],
        digest[(digest.getLast some).toNat % 16 + 2],digest[(digest.getLast some).toNat % 16 + 3]] := by
    rw [List.drop_eq_getElem_cons (by omega),List.drop_eq_getElem_cons (by omega),List.drop_eq_getElem_cons (by omega),
      List.drop_eq_getElem_cons (by omega)]
    rfl
  refine ⟨_,?_,(window_number digest[(digest.getLast some).toNat % 16] digest[(digest.getLast some).toNat % 16 + 1]
    digest[(digest.getLast some).toNat % 16 + 2] digest[(digest.getLast some).toNat % 16 + 3]).trans ?_⟩
  · simp only [truncate,last,Option.bind_eq_bind,Option.bind_some,offset]
    rw [List.getElem?_eq_getElem (by omega),List.getElem?_eq_getElem (by omega),List.getElem?_eq_getElem (by omega),
      List.getElem?_eq_getElem (by omega)]
    rfl
  · rw [truncated,List.getLastD_eq_getLast?,last,Option.getD_some,window]
    rfl

theorem lastDigits_fewer (build : Build) {digits : Nat} (some : digits ≠ 0) (fewer : digits ≤ 9) (binary : UInt32) :
    lastDigits build digits binary =
      .ok (String.ofList ((numeral 10 digits (binary.toNat % 10 ^ digits)).map Nat.digitChar)) := by
  have inside : 10 ^ digits < 2 ^ 32 := calc
    10 ^ digits ≤ 10 ^ 9 := Nat.pow_le_pow_right (by decide) fewer
    _ < 2 ^ 32 := by norm_num
  rw [lastDigits,fit_inside build inside,← leftpad_decimal digits _ (Nat.mod_lt _ (Nat.pow_pos (by decide))) some]

theorem lastDigits_ten (binary : UInt32) : lastDigits .debug 10 binary = .error .panicked := by
  have outside : ¬10 ^ 10 < 2 ^ 32 := by norm_num
  rw [lastDigits,fit_outside outside]

/-- The digits of the standard are as many as asked for, and stand for the truncated digest modulo that power. -/
theorem hotp_digits (hmac : Hmac) (algorithm : Algorithm) (key : List UInt8) (digits counter : Nat) :
    (hotp hmac algorithm key digits counter).length = digits := by
  rw [hotp,String.length_ofList,List.length_map,numeral_length]

/-- A code is that of the standard, in either build, but for ten digits: the power of ten is then no
number of 32 bits. -/
theorem code_standard_iff (hmac : Hmac) (secret : String) (digits : Nat) (period : UInt64) (algorithm : String) (time : UInt64)
    (admitted : 6 ≤ digits ∧ digits ≤ 10) (positive : period ≠ 0) {key : List UInt8} (decoded : decodeBase32 secret = .ok key)
    {chosen : Algorithm} (supported : algorithmOf algorithm = some chosen) :
    (∀ build, code build hmac secret digits period algorithm time =
      .ok (totp hmac chosen key digits period.toNat time.toNat)) ↔ digits ≠ 10 := by
  have long : 20 ≤ (hmac.digest chosen key (toBeBytes (time / period))).length := by
    rw [hmac.sized]
    cases chosen <;> decide
  obtain ⟨binary,read,number⟩ := truncate_truncated long
  have run (build : Build) : code build hmac secret digits period algorithm time = lastDigits build digits binary := by
    rw [code,if_neg (not_not.mpr admitted),if_neg positive,decoded,supported]
    dsimp only
    rw [read]
  have message : toBeBytes (time / period) = (numeral 256 8 (time.toNat / period.toNat)).map UInt8.ofNat := by
    rw [toBeBytes,UInt64.toNat_div]
  rw [totp,hotp,← message,← number]
  constructor
  · rintro all rfl
    have stopped := all .debug
    rw [run,lastDigits_ten] at stopped
    cases stopped
  · intro fewer build
    rw [run,lastDigits_fewer build (by omega) (by omega)]

section Samples

/-- The digest of the third counter, under the key of the test vectors. -/
def sampleDigest : List UInt8 := [102,194,130,39,208,58,45,85,41,38,47,240,22,161,230,239,118,85,126,206]

def sampleHmac : Hmac where
  digest algorithm _ _ := match algorithm with
    | .sha1 => sampleDigest
    | other => List.replicate other.size 0
  sized algorithm _ _ := by cases algorithm <;> rfl

def sampleSecret : String := "GEZDGNBVGY3TQOJQGEZDGNBVGY3TQOJQ"

def sampleKey : List UInt8 := "12345678901234567890".toUTF8.toList

theorem sample_decoded : decodeBase32 sampleSecret = .ok sampleKey := by
  decide +kernel

theorem code_standard_sample : totp sampleHmac .sha1 sampleKey 6 30 90 = "969429" ∧
    ∀ build, code build sampleHmac sampleSecret 6 30 "sha1" 90 = .ok (totp sampleHmac .sha1 sampleKey 6 30 90) :=
  ⟨rfl,(code_standard_iff sampleHmac sampleSecret 6 30 "sha1" 90 (by decide) (by decide) sample_decoded rfl).mpr (by decide)⟩

/-- Ten digits stop a debug build, and a release build gives others than the standard. -/
theorem ten_digits_overflow : code .debug sampleHmac sampleSecret 10 30 "sha1" 90 = .error .panicked ∧
    code .release sampleHmac sampleSecret 10 30 "sha1" 90 = .ok "0316904021" ∧
    totp sampleHmac .sha1 sampleKey 10 30 90 = "1726969429" ∧
    ¬∀ build, code build sampleHmac sampleSecret 10 30 "sha1" 90 = .ok (totp sampleHmac .sha1 sampleKey 10 30 90) := by
  have stopped : code .debug sampleHmac sampleSecret 10 30 "sha1" 90 = .error .panicked := rfl
  refine ⟨stopped,rfl,rfl,fun all => ?_⟩
  rw [all .debug] at stopped
  cases stopped

end Samples

end Qdrust.Totp
