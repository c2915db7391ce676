import Qdrust.Library.Form

/-! Quoted-printable: the encoder, which holds blanks back until it knows what follows them,
and the decoder. -/
namespace Qdrust.Codec.QuotedPrintable
open Library

/-- The digits of `format!("{byte:02X}")`. -/
def hexDigit (n : Nat) : Char := if n < 10 then Char.ofNat ('0'.toNat + n) else Char.ofNat ('A'.toNat + (n - 10))

/-- What a byte does to the encoder. -/
inductive Piece where
  | token (text : List Char)
  | line
  | blank (c : Char)

def piece (quotetabs istext : Bool) (byte : UInt8) : Piece :=
  if byte = '='.toUInt8 then .token ['=','3','D']
  else if byte = '\r'.toUInt8 ∧ istext = true then .token ['\r']
  else if byte = '\n'.toUInt8 ∧ istext = true then .line
  else if (byte = ' '.toUInt8 ∨ byte = '\t'.toUInt8) ∧ quotetabs = false then .blank (Char.ofNat byte.toNat)
  else if 0x21 ≤ byte ∧ byte ≤ 0x7e then .token [Char.ofNat byte.toNat]
  else .token ['=',hexDigit (byte.toNat / 16),hexDigit (byte.toNat % 16)]

/-- `flush_pending`: a blank alone is encoded, more of them are not. The column that it counts on is
reset by its callers. -/
def flushPending (pending : List Char) : List Char :=
  if pending = [' '] then ['=','2','0']
  else if pending = ['\t'] then ['=','0','9']
  else pending

/-- The encoder, from a column and the blanks that it holds back. -/
def encodeFrom (quotetabs istext : Bool) : Nat → List Char → List UInt8 → List Char
  | _, pending, [] => flushPending pending
  | lineLen, pending, byte :: data => match piece quotetabs istext byte with
    | .line => flushPending pending ++ '\n' :: encodeFrom quotetabs istext 0 [] data
    | .blank c => encodeFrom quotetabs istext lineLen (pending ++ [c]) data
    | .token text =>
      if lineLen + text.length > 75 then
        flushPending pending ++ ['=','\r','\n'] ++ text ++ encodeFrom quotetabs istext text.length [] data
      else text ++ encodeFrom quotetabs istext (lineLen + text.length) pending data

/-- `qp_encode`. -/
def qpEncode (data : List UInt8) (quotetabs istext : Bool) : String := String.ofList (encodeFrom quotetabs istext 0 [] data)

def hexValue (byte : UInt8) : Option Nat :=
  if '0'.toUInt8 ≤ byte ∧ byte ≤ '9'.toUInt8 then some (byte.toNat - '0'.toNat)
  else if 'a'.toUInt8 ≤ byte ∧ byte ≤ 'f'.toUInt8 then some (byte.toNat - 'a'.toNat + 10)
  else if 'A'.toUInt8 ≤ byte ∧ byte ≤ 'F'.toUInt8 then some (byte.toNat - 'A'.toNat + 10)
  else none

/-- `u8::from_str_radix` of two bytes, which takes a sign. -/
def fromStrRadix (first second : UInt8) : Option UInt8 := do
  let low ← hexValue second
  if first = '+'.toUInt8 then return UInt8.ofNat low
  let high ← hexValue first
  return UInt8.ofNat (high * 16 + low)

def decodeBytes : List UInt8 → List UInt8
  | [] => []
  | byte :: rest =>
    if byte ≠ '='.toUInt8 then byte :: decodeBytes rest
    else match rest with
      | [] => ['='.toUInt8]
      | next :: more =>
        if next = '\r'.toUInt8 then match more with
          | [] => []
          | third :: after => if third = '\n'.toUInt8 then decodeBytes after else decodeBytes (third :: after)
        else if next = '\n'.toUInt8 then decodeBytes more
        else match more with
          | [] => '='.toUInt8 :: decodeBytes [next]
          | third :: after => match fromStrRadix next third with
            | some decoded => decoded :: decodeBytes after
            | none => '='.toUInt8 :: decodeBytes (next :: third :: after)

/-- `qp_decode`. -/
def qpDecode (text : String) : List UInt8 := decodeBytes (Utf8.encode text.toList)

section Placed

variable (quotetabs istext : Bool)

/-- The bytes in the order in which they are written. -/
def order : Nat → List UInt8 → List UInt8 → List UInt8
  | _, pending, [] => pending
  | column, pending, byte :: data => match piece quotetabs istext byte with
    | .line => pending ++ byte :: order 0 [] data
    | .blank _ => order column (pending ++ [byte]) data
    | .token text =>
      if column + text.length > 75 then pending ++ byte :: order text.length [] data
      else byte :: order (column + text.length) pending data

/-- A byte that follows blanks on their line does not fit the line. `held` says that there are
blanks before, `column` what is taken of the line without them. -/
def Placed : Nat → Bool → List UInt8 → Prop
  | _, _, [] => True
  | column, held, byte :: data => match piece quotetabs istext byte with
    | .line => Placed 0 false data
    | .blank _ => Placed column true data
    | .token text =>
      if column + text.length > 75 then Placed text.length false data
      else held = false ∧ Placed (column + text.length) false data

end Placed

section Pieces

variable {quotetabs istext : Bool}

/-- A text that is decoded by itself, whatever follows it. -/
def Reads (text : List Char) (bytes : List UInt8) : Prop :=
  ∀ rest, decodeBytes (Utf8.encode text ++ rest) = bytes ++ decodeBytes rest

theorem reads_nil : Reads [] [] := fun _ => rfl

theorem reads_append {front back : List Char} {first second : List UInt8} (before : Reads front first)
    (behind : Reads back second) : Reads (front ++ back) (first ++ second) := by
  intro rest
  rw [Utf8.encode_append,List.append_assoc,before,behind,List.append_assoc]

/-- A byte that stands for itself. -/
theorem reads_byte {byte : UInt8} (low : byte < 128) (plain : byte ≠ '='.toUInt8) : Reads [Char.ofNat byte.toNat] [byte] := by
  intro rest
  rw [Form.encode_of_byte low]
  change decodeBytes (byte :: rest) = byte :: decodeBytes rest
  rw [decodeBytes.eq_def (byte :: rest)]
  exact if_pos plain

theorem hexDigit_byte : ∀ n < 16, String.utf8EncodeChar (hexDigit n) = [(hexDigit n).toUInt8] ∧
    hexValue (hexDigit n).toUInt8 = some n ∧ (hexDigit n).toUInt8 ≠ '+'.toUInt8 ∧ (hexDigit n).toUInt8 ≠ '\r'.toUInt8 ∧
    (hexDigit n).toUInt8 ≠ '\n'.toUInt8 := by decide

theorem reads_escape (byte : UInt8) : Reads ['=',hexDigit (byte.toNat / 16),hexDigit (byte.toNat % 16)] [byte] := by
  have below := byte.toNat_lt
  obtain ⟨first,high,plus,feed,break_⟩ := hexDigit_byte (byte.toNat / 16) (by omega)
  obtain ⟨second,low,-⟩ := hexDigit_byte (byte.toNat % 16) (by omega)
  have radix : fromStrRadix (hexDigit (byte.toNat / 16)).toUInt8 (hexDigit (byte.toNat % 16)).toUInt8 = some byte := by
    rw [fromStrRadix,low,high]
    simp only [Option.bind_eq_bind,Option.bind_some,if_neg plus]
    rw [Nat.div_add_mod' byte.toNat 16,UInt8.ofNat_toNat]
    rfl
  intro rest
  rw [Utf8.encode_cons,Utf8.encode_cons,Utf8.encode_cons,first,second]
  change decodeBytes ('='.toUInt8 :: (hexDigit (byte.toNat / 16)).toUInt8 :: (hexDigit (byte.toNat % 16)).toUInt8 :: rest) = _
  rw [decodeBytes,if_neg (not_not.mpr rfl),if_neg feed,if_neg break_,radix]
  rfl

theorem reads_softBreak : Reads ['=','\r','\n'] [] := fun _ => rfl

theorem reads_token {byte : UInt8} {text : List Char} (token : piece quotetabs istext byte = .token text) :
    Reads text [byte] := by
  unfold piece at token
  split at token
  · next same =>
    cases token
    rw [same]
    exact reads_escape '='.toUInt8
  · next other =>
    split at token
    · next feed =>
      cases token
      rw [feed.1]
      exact @reads_byte '\r'.toUInt8 (by decide) (by decide)
    · split at token
      · cases token
      · split at token
        · cases token
        · split at token
          · next printable =>
            cases token
            exact reads_byte (Nat.lt_of_le_of_lt printable.2 (by decide)) other
          · cases token
            exact reads_escape byte

theorem reads_line {byte : UInt8} (line : piece quotetabs istext byte = .line) : Reads ['\n'] [byte] := by
  unfold piece at line
  split at line
  · cases line
  · split at line
    · cases line
    · split at line
      · next feed =>
        rw [feed.1]
        exact @reads_byte '\n'.toUInt8 (by decide) (by decide)
      · split at line
        · cases line
        · split at line <;> cases line

theorem blank_byte {byte : UInt8} {c : Char} (blank : piece quotetabs istext byte = .blank c) :
    (byte = ' '.toUInt8 ∨ byte = '\t'.toUInt8) ∧ c = Char.ofNat byte.toNat := by
  unfold piece at blank
  split at blank
  · cases blank
  · split at blank
    · cases blank
    · split at blank
      · cases blank
      · split at blank
        · next kind =>
          cases blank
          exact ⟨kind.1,rfl⟩
        · split at blank <;> cases blank

/-- Blanks, by their bytes. -/
def Blank (byte : UInt8) : Prop := byte = ' '.toUInt8 ∨ byte = '\t'.toUInt8

theorem reads_blank {byte : UInt8} (blank : Blank byte) : Reads [Char.ofNat byte.toNat] [byte] := by
  rcases blank with rfl | rfl
  · exact reads_byte (by decide) (by decide)
  · exact reads_byte (by decide) (by decide)

/-- What is held back is written as it was. -/
theorem reads_pending {pending : List UInt8} (blanks : ∀ byte ∈ pending, Blank byte) :
    Reads (flushPending (pending.map fun byte => Char.ofNat byte.toNat)) pending := by
  have plain : Reads (pending.map fun byte => Char.ofNat byte.toNat) pending := by
    induction pending with
    | nil => exact reads_nil
    | cons byte pending ih =>
      rw [List.forall_mem_cons] at blanks
      exact reads_append (reads_blank blanks.1) (ih blanks.2)
  unfold flushPending
  match pending,blanks with
  | [],_ => exact plain
  | [byte],blanks =>
    rcases List.forall_mem_singleton.mp blanks with rfl | rfl
    · exact reads_escape ' '.toUInt8
    · exact reads_escape '\t'.toUInt8
  | first :: second :: rest,_ =>
    rw [if_neg (by simp),if_neg (by simp)]
    exact plain

theorem reads_encodeFrom (data : List UInt8) : ∀ (column : Nat) (pending : List UInt8), (∀ byte ∈ pending, Blank byte) →
    Reads (encodeFrom quotetabs istext column (pending.map fun byte => Char.ofNat byte.toNat) data)
      (order quotetabs istext column pending data) := by
  induction data with
  | nil => exact fun _ _ blanks => reads_pending blanks
  | cons byte data ih =>
    intro column pending blanks
    rw [encodeFrom,order]
    cases kind : piece quotetabs istext byte with
    | line => exact reads_append (reads_pending blanks) (reads_append (reads_line kind) (ih 0 [] (List.forall_mem_nil _)))
    | blank c =>
      obtain ⟨blank,rfl⟩ := blank_byte kind
      have held := ih column (pending ++ [byte]) (List.forall_mem_append.mpr ⟨blanks,List.forall_mem_singleton.mpr blank⟩)
      rw [List.map_append] at held
      exact held
    | token text =>
      dsimp only
      split
      · have rest := reads_append (reads_token kind) (ih text.length [] (List.forall_mem_nil _))
        rw [List.append_assoc,List.append_assoc]
        exact reads_append (reads_pending blanks) (reads_append reads_softBreak rest)
      · exact reads_append (reads_token kind) (ih _ pending blanks)

/-- What is decoded are the bytes in the order in which they were written. -/
theorem decode_encode (data : List UInt8) : qpDecode (qpEncode data quotetabs istext) = order quotetabs istext 0 [] data := by
  have read := @reads_encodeFrom quotetabs istext data 0 [] (List.forall_mem_nil _) []
  rw [List.append_nil] at read
  rw [qpDecode,qpEncode,String.toList_ofList]
  exact read.trans (List.append_nil _)

theorem token_not_blank {byte : UInt8} {text : List Char} (token : piece quotetabs istext byte = .token text) :
    quotetabs = true ∨ ¬Blank byte := by
  by_contra neither
  rw [not_or,not_not,Bool.not_eq_true] at neither
  obtain ⟨plain,blank⟩ := neither
  rcases blank with rfl | rfl
  all_goals
    subst plain
    cases istext <;> cases token

theorem blank_quoted {byte : UInt8} {c : Char} (blank : piece quotetabs istext byte = .blank c) : quotetabs = false := by
  unfold piece at blank
  split at blank
  · cases blank
  · split at blank
    · cases blank
    · split at blank
      · cases blank
      · split at blank
        · next kind => exact kind.2
        · split at blank <;> cases blank

/-- The bytes are written in their order exactly where the blanks are placed so. -/
theorem order_eq_iff (data : List UInt8) : ∀ (column : Nat) (pending : List UInt8), (∀ byte ∈ pending, Blank byte) →
    (pending ≠ [] → quotetabs = false) →
    (order quotetabs istext column pending data = pending ++ data ↔
      Placed quotetabs istext column (!pending.isEmpty) data) := by
  induction data with
  | nil => exact fun _ pending _ _ => iff_of_true (List.append_nil pending).symm trivial
  | cons byte data ih =>
    intro column pending blanks plain
    rw [order,Placed]
    cases kind : piece quotetabs istext byte with
    | line =>
      rw [List.append_cancel_left_eq,List.cons.injEq]
      exact (and_iff_right rfl).trans (ih 0 [] (List.forall_mem_nil _) (absurd rfl))
    | blank c =>
      have held := ih column (pending ++ [byte])
        (List.forall_mem_append.mpr ⟨blanks,List.forall_mem_singleton.mpr (blank_byte kind).1⟩) fun _ => blank_quoted kind
      rw [List.append_assoc] at held
      have some : (!(pending ++ [byte]).isEmpty) = true := by
        cases pending <;> rfl
      rw [some] at held
      exact held
    | token text =>
      dsimp only
      split
      · rw [List.append_cancel_left_eq,List.cons.injEq]
        exact (and_iff_right rfl).trans (ih text.length [] (List.forall_mem_nil _) (absurd rfl))
      · cases pending with
        | nil =>
          rw [List.nil_append,List.cons.injEq]
          exact (and_congr_right fun _ => ih _ [] (List.forall_mem_nil _) (absurd rfl)).trans
            (and_congr_left fun _ => iff_of_true rfl rfl)
        | cons first pending =>
          -- the byte is written before the first of the blanks
          refine iff_of_false (fun same => ?_) fun placed => Bool.noConfusion placed.1
          have early : byte = first := (List.cons.inj same).1
          rw [early] at kind
          rcases token_not_blank kind with quoted | other
          · rw [plain (List.cons_ne_nil _ _)] at quoted
            cases quoted
          · exact other (blanks first List.mem_cons_self)

theorem placed_quoted (data : List UInt8) : ∀ column, Placed true istext column false data := by
  induction data with
  | nil => exact fun _ => trivial
  | cons byte data ih =>
    intro column
    rw [Placed]
    cases kind : piece true istext byte with
    | line => exact ih 0
    | blank c => exact absurd (blank_quoted kind) (by decide)
    | token text =>
      dsimp only
      split
      · exact ih _
      · exact ⟨rfl,ih _⟩

theorem round_trip_iff (data : List UInt8) :
    order quotetabs istext 0 [] data = data ↔ Placed quotetabs istext 0 false data :=
  order_eq_iff data 0 [] (List.forall_mem_nil _) (absurd rfl)

/-- With blanks encoded, every byte string is decoded to itself. -/
theorem quoted_round_trip (data : List UInt8) : qpDecode (qpEncode data true istext) = data := by
  rw [decode_encode,round_trip_iff]
  exact placed_quoted data 0

end Pieces

/-- A byte string is decoded to itself exactly when each byte behind blanks, on their line, is one
that no longer fits that line. -/
theorem quoted_printable_iff (data : List UInt8) (quotetabs istext : Bool) :
    qpDecode (qpEncode data quotetabs istext) = data ↔ Placed quotetabs istext 0 false data := by
  rw [decode_encode,round_trip_iff]

/-- The blank between two letters comes out behind them. -/
theorem blank_after_letters : qpEncode "a b".toUTF8.toList false false = "ab=20" ∧
    qpDecode (qpEncode "a b".toUTF8.toList false false) ≠ "a b".toUTF8.toList := by
  decide +kernel

end Qdrust.Codec.QuotedPrintable
