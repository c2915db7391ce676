import Qdrust.Library.BitStream
import Qdrust.Library.Text

/-! Base32 of the shared secret: the encoder of the server, the decoder that the codes are
computed with, and the shapes of a secret that a user may type. -/
namespace Qdrust.Totp
open Library BitStream

/-- `ALPHABET`. -/
def alphabet : List Char := "ABCDEFGHIJKLMNOPQRSTUVWXYZ234567".toList

/-- The letter of the low five bits. -/
def letter (buffer : BitVec 32) : Char := alphabet.getD (buffer &&& 0x1f).toNat 'A'

/-- The letters that a buffer with so many bits pending gives, and how many bits remain. -/
def takeLetters (buffer : BitVec 32) : Nat → List Char × Nat
  | bits + 5 => (letter (buffer >>> bits) :: (takeLetters buffer bits).1,(takeLetters buffer bits).2)
  | bits => ([],bits)

def encodeFrom (buffer : BitVec 32) (bits : Nat) : List UInt8 → List Char
  | [] => if 0 < bits then [letter (buffer <<< (5 - bits))] else []
  | byte :: bytes =>
    let filled := buffer <<< 8 ||| byte.toBitVec.setWidth 32
    let taken := takeLetters filled (bits + 8)
    taken.1 ++ encodeFrom filled taken.2 bytes

/-- `encode_base32`. -/
def encodeBase32 (bytes : List UInt8) : String := String.ofList (encodeFrom 0 0 bytes)

/-- What a letter stands for. -/
def letterValue (ch : Char) : Option (BitVec 32) :=
  if 'A'.toNat ≤ ch.toNat ∧ ch.toNat ≤ 'Z'.toNat then some (BitVec.ofNat 32 (ch.toNat - 'A'.toNat))
  else if '2'.toNat ≤ ch.toNat ∧ ch.toNat ≤ '7'.toNat then some (BitVec.ofNat 32 (ch.toNat - '2'.toNat + 26))
  else none

def decodeFrom (buffer : BitVec 32) (bits : Nat) : List Char → Except String (List UInt8)
  | [] => .ok []
  | ch :: rest =>
    match letterValue ch with
    | none => .error ("invalid base32 character in totp secret: " ++ String.singleton ch)
    | some value =>
      let filled := buffer <<< 5 ||| value
      if 8 ≤ bits + 5 then
        (decodeFrom filled (bits + 5 - 8) rest).map fun out =>
          UInt8.ofBitVec ((filled >>> (bits + 5 - 8) &&& 0xff).setWidth 8) :: out
      else decodeFrom filled (bits + 5) rest

/-- `to_ascii_uppercase`. -/
def upper (ch : Char) : Char :=
  if 'a'.toNat ≤ ch.toNat ∧ ch.toNat ≤ 'z'.toNat then Char.ofNat (ch.toNat - 32) else ch

/-- What a setup page puts between the letters. -/
def isFormatting (ch : Char) : Bool := Text.whiteSpace ch || ch == '-'

def cleaned (secret : String) : List Char :=
  ((secret.toList.filter fun ch => !isFormatting ch).rdropWhile (· == '=')).map upper

/-- `decode_base32`. -/
def decodeBase32 (secret : String) : Except String (List UInt8) :=
  if (cleaned secret).isEmpty then .error "totp secret is empty"
  else match decodeFrom 0 0 (cleaned secret) with
    | .error message => .error message
    | .ok out => if out.isEmpty then .error "totp secret is too short" else .ok out

def normalizeSecret (secret : String) : String :=
  String.ofList ((secret.toList.filter fun ch => !isFormatting ch && ch != '=').map upper)

/-- The letters of a secret, in upper case. -/
def letters (secret : String) : List Char := (secret.toList.map upper).filter alphabet.contains

/-- Letters of either case with formatting between them, then padding. -/
structure Formatted (secret : String) : Prop where
  split : ∃ front back, secret.toList = front ++ back ∧
    (∀ ch ∈ front, upper ch ∈ alphabet ∨ isFormatting ch = true) ∧ ∀ ch ∈ back, ch = '=' ∨ isFormatting ch = true

section Letters

theorem value_of_alphabet : ∀ n < 32, letterValue (alphabet.getD n 'A') = some (BitVec.ofNat 32 n) := by decide

theorem alphabet_range : ∀ n < 128, 'A'.toNat ≤ n ∧ n ≤ 'Z'.toNat ∨ '2'.toNat ≤ n ∧ n ≤ '7'.toNat → Char.ofNat n ∈ alphabet := by
  decide

theorem mem_alphabet {ch : Char} :
    ch ∈ alphabet ↔ 'A'.toNat ≤ ch.toNat ∧ ch.toNat ≤ 'Z'.toNat ∨ '2'.toNat ≤ ch.toNat ∧ ch.toNat ≤ '7'.toNat := by
  constructor
  · intro there
    have all : alphabet.all (fun ch => decide ('A'.toNat ≤ ch.toNat ∧ ch.toNat ≤ 'Z'.toNat ∨
      '2'.toNat ≤ ch.toNat ∧ ch.toNat ≤ '7'.toNat)) = true := rfl
    exact of_decide_eq_true (List.all_eq_true.mp all ch there)
  · intro within
    have small : ch.toNat < 128 := by
      simp only [Char.reduceToNat] at within
      omega
    have there := alphabet_range ch.toNat small within
    rwa [Char.ofNat_toNat] at there

theorem letter_small (buffer : BitVec 32) : (buffer &&& 0x1f).toNat < 32 := by
  rw [BitVec.toNat_and]
  exact Nat.lt_of_le_of_lt Nat.and_le_right (by decide)

theorem letterValue_letter (buffer : BitVec 32) : letterValue (letter buffer) = some (buffer &&& 0x1f) := by
  rw [letter,value_of_alphabet _ (letter_small buffer),BitVec.ofNat_toNat,BitVec.setWidth_eq]

theorem letter_mem (buffer : BitVec 32) : letter buffer ∈ alphabet := by
  have inside : (buffer &&& 0x1f).toNat < alphabet.length := letter_small buffer
  rw [letter,List.getD_eq_getElem?_getD,List.getElem?_eq_getElem inside]
  exact List.getElem_mem inside

/-- A letter has a value of five bits. -/
theorem letterValue_digit {ch : Char} (letter : ch ∈ alphabet) :
    ∃ digit : BitVec 5, letterValue ch = some (digit.setWidth 32) := by
  have within := mem_alphabet.mp letter
  have small (n : Nat) (below : n < 32) : BitVec.ofNat 32 n = (BitVec.ofNat 5 n).setWidth 32 := by
    apply BitVec.eq_of_toNat_eq
    rw [BitVec.toNat_setWidth,BitVec.toNat_ofNat,BitVec.toNat_ofNat]
    omega
  unfold letterValue
  split
  · next upper =>
    simp only [Char.reduceToNat] at upper ⊢
    exact ⟨_,congrArg some (small _ (by omega))⟩
  · next other =>
    have digit := within.resolve_left other
    rw [if_pos digit]
    simp only [Char.reduceToNat] at digit ⊢
    exact ⟨_,congrArg some (small _ (by omega))⟩

theorem letterValue_other {ch : Char} (other : ch ∉ alphabet) : letterValue ch = none := by
  rw [mem_alphabet,not_or] at other
  rw [letterValue,if_neg other.1,if_neg other.2]

end Letters

section RoundTrip

/-- The bits that letters stand for. -/
def letterBits (text : List Char) : List Bool := text.flatMap fun ch => low ((letterValue ch).getD 0) 5

theorem letterBits_cons (ch : Char) (text : List Char) :
    letterBits (ch :: text) = low ((letterValue ch).getD 0) 5 ++ letterBits text := rfl

theorem letterBits_append (front back : List Char) : letterBits (front ++ back) = letterBits front ++ letterBits back :=
  List.flatMap_append

theorem letterBits_letter (buffer : BitVec 32) : low ((letterValue (letter buffer)).getD 0) 5 = low buffer 5 := by
  rw [letterValue_letter]
  exact low_mask buffer 5

/-- The bits that are taken are those that were pending first. -/
theorem takeLetters_bits (buffer : BitVec 32) (bits : Nat) :
    letterBits (takeLetters buffer bits).1 ++ low buffer (takeLetters buffer bits).2 = low buffer bits ∧
      (takeLetters buffer bits).2 < 5 := by
  induction bits using takeLetters.induct with
  | case1 bits ih =>
    have first := low_split buffer 5 bits
    rw [Nat.add_comm] at first
    rw [takeLetters,letterBits_cons,letterBits_letter,List.append_assoc,ih.1]
    exact ⟨first.symm,ih.2⟩
  | case2 bits few =>
    have small : bits < 5 := by
      by_contra large
      exact few (bits - 5) (by omega)
    have none_taken : takeLetters buffer bits = ([],bits) := by
      rw [takeLetters]
      exact few
    rw [none_taken]
    exact ⟨rfl,small⟩

theorem takeLetters_mem (buffer : BitVec 32) (bits : Nat) : ∀ ch ∈ (takeLetters buffer bits).1, ch ∈ alphabet := by
  induction bits using takeLetters.induct with
  | case1 bits ih =>
    rw [takeLetters]
    exact List.forall_mem_cons.mpr ⟨letter_mem _,ih⟩
  | case2 bits few =>
    rw [takeLetters]
    · exact List.forall_mem_nil _
    · exact few

/-- The letters stand for what was pending, the bytes, and the bits that fill the last letter. -/
theorem encodeFrom_bits (bytes : List UInt8) : ∀ (buffer : BitVec 32) (bits : Nat), bits < 5 →
    ∃ filling, filling.length < 5 ∧
      letterBits (encodeFrom buffer bits bytes) = low buffer bits ++ stream (bytes.map UInt8.toBitVec) ++ filling := by
  induction bytes with
  | nil =>
    intro buffer bits few
    rw [encodeFrom,List.map_nil,stream_nil,List.append_nil]
    by_cases pending : 0 < bits
    · refine ⟨low (0#(5 - bits)) (5 - bits),by rw [low_length]; omega,?_⟩
      have filled := low_push buffer (0#(5 - bits)) bits (by omega)
      rw [BitVec.setWidth_zero,BitVec.or_zero,Nat.add_sub_cancel' (Nat.le_of_lt few)] at filled
      rw [if_pos pending,letterBits_cons,letterBits_letter,filled]
      exact List.append_nil _
    · rw [if_neg pending,Nat.eq_zero_of_not_pos pending]
      exact ⟨[],by decide,rfl⟩
  | cons byte bytes ih =>
    intro buffer bits few
    obtain ⟨taken,remains⟩ := takeLetters_bits (buffer <<< 8 ||| byte.toBitVec.setWidth 32) (bits + 8)
    obtain ⟨filling,short,rest⟩ := ih (buffer <<< 8 ||| byte.toBitVec.setWidth 32) _ remains
    refine ⟨filling,short,?_⟩
    rw [encodeFrom,letterBits_append,rest,← List.append_assoc,← List.append_assoc,taken,
      low_push buffer byte.toBitVec bits (by omega),List.map_cons,stream_cons]
    simp only [List.append_assoc]

theorem encodeFrom_mem (bytes : List UInt8) :
    ∀ (buffer : BitVec 32) (bits : Nat), ∀ ch ∈ encodeFrom buffer bits bytes, ch ∈ alphabet := by
  induction bytes with
  | nil =>
    intro buffer bits
    rw [encodeFrom]
    split
    · exact List.forall_mem_singleton.mpr (letter_mem _)
    · exact List.forall_mem_nil _
  | cons byte bytes ih =>
    intro buffer bits ch there
    rw [encodeFrom] at there
    rcases List.mem_append.mp there with taken | later
    · exact takeLetters_mem _ _ ch taken
    · exact ih _ _ ch later

/-- The bytes hold what was pending and what the letters stand for, up to less than a byte. -/
theorem decodeFrom_bits (text : List Char) (letters : ∀ ch ∈ text, ch ∈ alphabet) : ∀ (buffer : BitVec 32) (bits : Nat), bits < 8 →
    ∃ out rest, decodeFrom buffer bits text = .ok out ∧ rest.length < 8 ∧
      low buffer bits ++ letterBits text = stream (out.map UInt8.toBitVec) ++ rest := by
  induction text with
  | nil =>
    intro buffer bits few
    exact ⟨[],low buffer bits,rfl,by rw [low_length]; exact few,List.append_nil _⟩
  | cons ch text ih =>
    intro buffer bits few
    rw [List.forall_mem_cons] at letters
    obtain ⟨digit,value⟩ := letterValue_digit letters.1
    have pushed : low (buffer <<< 5 ||| digit.setWidth 32) (bits + 5) = low buffer bits ++ low ((letterValue ch).getD 0) 5 := by
      rw [low_push buffer digit bits (by omega),value,Option.getD_some,low_setWidth digit 5 (by decide)]
    rw [decodeFrom,value,letterBits_cons,← List.append_assoc,← pushed]
    dsimp only
    by_cases full : 8 ≤ bits + 5
    · obtain ⟨out,rest,decoded,short,same⟩ := ih letters.2 (buffer <<< 5 ||| digit.setWidth 32) (bits + 5 - 8) (by omega)
      have cut := low_split (buffer <<< 5 ||| digit.setWidth 32) 8 (bits + 5 - 8)
      rw [Nat.add_sub_cancel' full] at cut
      rw [if_pos full,decoded]
      refine ⟨_,rest,rfl,short,?_⟩
      rw [List.map_cons,stream_cons,UInt8.toBitVec_ofBitVec,low_setWidth _ 8 (Nat.le_refl _),cut,List.append_assoc,same,
        ← List.append_assoc]
      congr 2
      exact (low_mask _ 8).symm
    · obtain ⟨out,rest,decoded,short,same⟩ := ih letters.2 (buffer <<< 5 ||| digit.setWidth 32) (bits + 5) (by omega)
      rw [if_neg full]
      exact ⟨out,rest,decoded,short,same⟩

/-- What is decoded has no other characters. -/
theorem decodeFrom_letters {text : List Char} : ∀ {buffer : BitVec 32} {bits : Nat} {out : List UInt8},
    decodeFrom buffer bits text = .ok out → ∀ ch ∈ text, ch ∈ alphabet := by
  induction text with
  | nil => exact fun _ => List.forall_mem_nil _
  | cons ch text ih =>
    intro buffer bits out decoded
    by_cases letter : ch ∈ alphabet
    · obtain ⟨digit,value⟩ := letterValue_digit letter
      refine List.forall_mem_cons.mpr ⟨letter,?_⟩
      rw [decodeFrom,value] at decoded
      dsimp only at decoded
      split at decoded
      · cases rest : decodeFrom (buffer <<< 5 ||| digit.setWidth 32) (bits + 5 - 8) text with
        | error message => rw [rest] at decoded; cases decoded
        | ok later => exact ih rest
      · exact ih decoded
    · rw [decodeFrom,letterValue_other letter] at decoded
      cases decoded

end RoundTrip

section Secrets

theorem upper_range {ch : Char} (letter : upper ch ∈ alphabet) :
    'A'.toNat ≤ ch.toNat ∧ ch.toNat ≤ 'Z'.toNat ∨ 'a'.toNat ≤ ch.toNat ∧ ch.toNat ≤ 'z'.toNat ∨
      '2'.toNat ≤ ch.toNat ∧ ch.toNat ≤ '7'.toNat := by
  rw [upper] at letter
  split at letter
  · next lower => exact .inr (.inl lower)
  · exact (mem_alphabet.mp letter).imp_right .inr

theorem upper_letter {ch : Char} (letter : ch ∈ alphabet) : upper ch = ch := by
  have range := mem_alphabet.mp letter
  simp only [Char.reduceToNat] at range
  rw [upper,if_neg]
  simp only [Char.reduceToNat]
  omega

theorem letter_not_formatting {ch : Char} (letter : upper ch ∈ alphabet) : isFormatting ch = false := by
  have range := upper_range letter
  simp only [Char.reduceToNat] at range
  have dash : ch ≠ '-' := by
    rintro rfl
    simp only [Char.reduceToNat] at range
    omega
  have blank : Text.whiteSpace ch = false := by
    simp only [Text.whiteSpace,Bool.or_eq_false_iff,Bool.and_eq_false_iff,decide_eq_false_iff_not,beq_eq_false_iff_ne]
    omega
  rw [isFormatting,blank,Bool.false_or,beq_eq_false_iff_ne]
  exact dash

theorem letter_not_padding {ch : Char} (letter : upper ch ∈ alphabet) : ch ≠ '=' := by
  rintro rfl
  have range := upper_range letter
  simp only [Char.reduceToNat] at range
  omega

theorem formatting_not_letter {ch : Char} (formatting : isFormatting ch = true) : upper ch ∉ alphabet := by
  intro letter
  rw [letter_not_formatting letter] at formatting
  cases formatting

/-- Only letters are left of a secret whose padding is at its end. -/
theorem filter_formatted {front back : List Char} (letters : ∀ ch ∈ front, upper ch ∈ alphabet ∨ isFormatting ch = true)
    (padding : ∀ ch ∈ back, ch = '=' ∨ isFormatting ch = true) :
    ((front ++ back).filter fun ch => !isFormatting ch).rdropWhile (· == '=') =
      (front ++ back).filter fun ch => alphabet.contains (upper ch) := by
  have kept : front.filter (fun ch => !isFormatting ch) = front.filter fun ch => alphabet.contains (upper ch) := by
    refine List.filter_congr fun ch there => ?_
    rcases letters ch there with letter | formatting
    · rw [letter_not_formatting letter,List.contains_iff_mem.mpr letter,Bool.not_false]
    · rw [formatting,Bool.not_true,Bool.eq_false_iff.mpr fun letter => formatting_not_letter formatting (List.contains_iff_mem.mp letter)]
  have dropped : back.filter (fun ch => alphabet.contains (upper ch)) = [] := by
    refine List.filter_eq_nil_iff.mpr fun ch there letter => ?_
    rw [List.contains_iff_mem] at letter
    rcases padding ch there with rfl | formatting
    · exact letter_not_padding letter rfl
    · exact formatting_not_letter formatting letter
  have padded : ∀ ch ∈ (back.filter fun ch => !isFormatting ch).reverse, (ch == '=') = true := by
    intro ch there
    obtain ⟨there,plain⟩ := List.mem_filter.mp (List.mem_reverse.mp there)
    rcases padding ch there with rfl | formatting
    · rfl
    · rw [formatting] at plain
      cases plain
  rw [List.filter_append,List.filter_append,dropped,List.append_nil,List.rdropWhile,List.reverse_append,
    List.dropWhile_append_of_pos padded,← List.rdropWhile,kept,List.rdropWhile_eq_self_iff]
  intro some last
  have letter := (List.mem_filter.mp (List.getLast_mem some)).2
  exact letter_not_padding (List.contains_iff_mem.mp letter) (eq_of_beq last)

theorem cleaned_formatted {secret : String} (formatted : Formatted secret) : cleaned secret = letters secret := by
  obtain ⟨front,back,split,letters,padding⟩ := formatted.split
  rw [cleaned,split,filter_formatted letters padding,Totp.letters,split,List.filter_map]
  rfl

theorem formatted_letters {text : List Char} (all : ∀ ch ∈ text, ch ∈ alphabet) : Formatted (String.ofList text) where
  split := ⟨text,[],by rw [String.toList_ofList,List.append_nil],
    fun ch there => .inl ((upper_letter (all ch there)).symm ▸ all ch there),List.forall_mem_nil _⟩

theorem cleaned_letters {text : List Char} (all : ∀ ch ∈ text, ch ∈ alphabet) : cleaned (String.ofList text) = text := by
  have same : text.map upper = text := by
    rw [List.map_congr_left fun ch there => upper_letter (all ch there)]
    exact List.map_id' text
  rw [cleaned_formatted (formatted_letters all),letters,String.toList_ofList,same,List.filter_eq_self]
  exact fun ch there => List.contains_iff_mem.mpr (all ch there)

theorem letters_mem (secret : String) : ∀ ch ∈ letters secret, ch ∈ alphabet := fun _ there =>
  List.contains_iff_mem.mp (List.mem_filter.mp there).2

theorem letters_letters (secret : String) : letters (String.ofList (letters secret)) = letters secret := by
  rw [← cleaned_formatted (formatted_letters (letters_mem secret)),cleaned_letters (letters_mem secret)]

theorem decode_congr {first second : String} (same : cleaned first = cleaned second) :
    decodeBase32 first = decodeBase32 second := by
  rw [decodeBase32,decodeBase32,same]

theorem normalize_formatted {secret : String} (formatted : Formatted secret) :
    normalizeSecret secret = String.ofList (letters secret) := by
  obtain ⟨front,back,split,letters,padding⟩ := formatted.split
  have kept : (secret.toList.filter fun ch => !isFormatting ch && ch != '=') =
      secret.toList.filter fun ch => alphabet.contains (upper ch) := by
    refine List.filter_congr fun ch there => ?_
    rw [split] at there
    have kind : upper ch ∈ alphabet ∨ ch = '=' ∨ isFormatting ch = true := by
      rcases List.mem_append.mp there with there | there
      · exact (letters ch there).imp_right .inr
      · exact .inr (padding ch there)
    rcases kind with letter | rfl | formatting
    · rw [letter_not_formatting letter,List.contains_iff_mem.mpr letter,Bool.not_false,Bool.true_and,bne_iff_ne]
      exact letter_not_padding letter
    · rfl
    · rw [formatting,Bool.not_true,Bool.false_and]
      exact (Bool.eq_false_iff.mpr fun letter => formatting_not_letter formatting (List.contains_iff_mem.mp letter)).symm
  rw [normalizeSecret,kept,Totp.letters,List.filter_map]
  rfl

/-- Trailing padding is trimmed around the formatting between it. -/
theorem filter_dropWhile {α : Type} (padding formatting : α → Bool) (text : List α) :
    (text.dropWhile fun ch => padding ch || formatting ch).filter (fun ch => !formatting ch) =
      (text.filter fun ch => !formatting ch).dropWhile padding := by
  induction text with
  | nil => rfl
  | cons ch text ih =>
    cases blank : formatting ch with
    | true => simp [blank,ih]
    | false =>
      cases pads : padding ch with
      | true => simp [blank,pads,ih]
      | false => simp [blank,pads]

theorem formatted_cleaned {secret : String} (all : ∀ ch ∈ cleaned secret, ch ∈ alphabet) : Formatted secret := by
  have split := @List.rdropWhile_append_rtakeWhile _ (fun ch => ch == '=' || isFormatting ch) secret.toList
  refine ⟨_,_,split.symm,?_,?_⟩
  · intro ch there
    by_cases formatting : isFormatting ch = true
    · exact .inr formatting
    · refine .inl (all _ (List.mem_map.mpr ⟨ch,?_,rfl⟩))
      have kept := filter_dropWhile (fun ch => ch == '=') isFormatting secret.toList.reverse
      rw [List.filter_reverse] at kept
      rw [List.rdropWhile,List.mem_reverse,← kept]
      exact List.mem_filter.mpr ⟨List.mem_reverse.mp there,by rw [Bool.eq_false_iff.mpr formatting]; rfl⟩
  · intro ch there
    have pads := List.mem_rtakeWhile_imp there
    rw [Bool.or_eq_true,beq_iff_eq] at pads
    exact pads

theorem decode_ok {secret : String} {out : List UInt8} (decoded : decodeBase32 secret = .ok out) :
    decodeFrom 0 0 (cleaned secret) = .ok out := by
  rw [decodeBase32] at decoded
  split at decoded
  · cases decoded
  · split at decoded
    · cases decoded
    · next found =>
      split at decoded
      · cases decoded
      · rw [found]
        exact decoded

/-- Decoding undoes encoding; it reads nothing but the letters of a secret, and takes no secret
with other characters than letters, formatting and the padding at its end. -/
theorem base32_sound :
    (∀ bytes : List UInt8, bytes ≠ [] → decodeBase32 (encodeBase32 bytes) = .ok bytes) ∧
    (∀ secret, Formatted secret → decodeBase32 secret = decodeBase32 (String.ofList (letters secret)) ∧
      decodeBase32 (normalizeSecret secret) = decodeBase32 secret) ∧
    ∀ secret bytes, decodeBase32 secret = .ok bytes → Formatted secret := by
  refine ⟨fun bytes some => ?_,fun secret formatted => ?_,fun secret bytes decoded => ?_⟩
  · have all := encodeFrom_mem bytes 0 0
    obtain ⟨filling,short,encoded⟩ := encodeFrom_bits bytes 0 0 (by decide)
    obtain ⟨out,rest,decoded,behind,same⟩ := decodeFrom_bits _ all 0 0 (by decide)
    rw [encoded] at same
    have equal : bytes.map UInt8.toBitVec = out.map UInt8.toBitVec := stream_unique (by omega) behind same
    have back : bytes = out := List.map_injective_iff.mpr (fun _ _ same => UInt8.toBitVec_inj.mp same) equal
    have letters : encodeFrom 0 0 bytes ≠ [] := by
      intro empty
      rw [empty] at decoded
      cases decoded
      exact some back
    rw [decodeBase32,encodeBase32,cleaned_letters all,decoded,← back]
    dsimp only
    rw [if_neg (by rw [List.isEmpty_iff]; exact letters),if_neg (by rw [List.isEmpty_iff]; exact some)]
  · have plain : decodeBase32 secret = decodeBase32 (String.ofList (letters secret)) := by
      apply decode_congr
      rw [cleaned_formatted formatted,cleaned_letters (letters_mem secret)]
    rw [normalize_formatted formatted]
    exact ⟨plain,plain.symm⟩
  · exact formatted_cleaned (decodeFrom_letters (decode_ok decoded))

theorem base32_sound_hi : decodeBase32 (encodeBase32 [104,105]) = .ok [104,105] ∧
    decodeBase32 "nbu q-==" = decodeBase32 "NBUQ" ∧ Formatted (encodeBase32 [104,105]) := by
  have formatted : Formatted "nbu q-==" := by
    refine ⟨"nbu q-".toList,"==".toList,rfl,?_,?_⟩
    · have all : ("nbu q-".toList.all fun ch => decide (upper ch ∈ alphabet) || isFormatting ch) = true := rfl
      intro ch there
      have kind := List.all_eq_true.mp all ch there
      rwa [Bool.or_eq_true,decide_eq_true_eq] at kind
    · exact List.forall_mem_cons.mpr ⟨.inl rfl,List.forall_mem_singleton.mpr (.inl rfl)⟩
  have decoded := base32_sound.1 [104,105] (by decide)
  exact ⟨decoded,(base32_sound.2.1 _ formatted).1,base32_sound.2.2 _ _ decoded⟩

end Secrets

end Qdrust.Totp
