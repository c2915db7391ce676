import Mathlib.Algebra.Group.Nat.Defs
import Mathlib.Algebra.Group.Int.Defs
import Mathlib.Order.Lattice.Nat
import Qdrust.Expression.Find
import Qdrust.Expression.Unescape
import Qdrust.Library.Digits
import Qdrust.Library.Utf8

/-! The function `format` and the conversions of `%`: a value is rendered, and its body is padded. -/
namespace Qdrust.Expression.FormatSpec
open Library Find

/-- What a value is rendered from. -/
structure Value where
  text : List Char
  isNumber : Bool
  /-- `python_repr`. -/
  repr : List Char

/-- The numbers of type `f64` and how they are written. -/
structure Floats (F : Type) where
  parse : List Char → Option F
  zero : F
  fixed : Nat → F → List Char
  exponent : F → List Char
  scientific : Nat → F → List Char
  scientificUpper : Nat → F → List Char
  /-- `general_float`. -/
  general : Nat → F → List Char
  trunc : F → Int

inductive Align where
  | left
  | right
  | center
deriving DecidableEq

def alignOf (c : Char) : Option Align :=
  if c = '<' then some .left else if c = '>' then some .right else if c = '^' then some .center else none

/-- The parts of a format specification. Its sign is skipped. -/
structure Spec where
  fill : Option Char
  align : Option Align
  zeroPad : Bool
  width : Option Nat
  precision : Option Nat
  kind : Option Char

/-- `text[index..]`, which panics where no character begins. -/
def sliceFrom : Nat → List Char → Option (List Char)
  | index, [] => if index = 0 then some [] else none
  | index, c :: text =>
    if index = 0 then some (c :: text)
    else if c.utf8Size ≤ index then sliceFrom (index - c.utf8Size) text
    else none

/-- An alignment is looked for in the second byte. -/
def readFill (rest : List Char) : Option ((Option Char × Option Align) × List Char) :=
  match (Utf8.encode rest)[1]?.bind fun byte => alignOf (Char.ofNat byte.toNat) with
  | some align => (sliceFrom 2 rest).map fun rest' => ((rest.head?,some align),rest')
  | none =>
    match rest with
    | [] => some ((none,none),[])
    | first :: _ =>
      match alignOf first with
      | some align => (sliceFrom first.utf8Size rest).map fun rest' => ((none,some align),rest')
      | none => some ((none,none),rest)

/-- The text behind one of these characters, if it starts with one. -/
def readOne (set : List Char) (rest : List Char) : Option (Bool × List Char) :=
  if rest.head?.any (set.contains ·) then (sliceFrom 1 rest).map (true,·) else some (false,rest)

/-- `str::parse::<usize>` for digits. -/
def parseUsize (digits : List Char) : Option Nat :=
  if digits ≠ [] ∧ Digits.natValue digits < 2 ^ 64 then some (Digits.natValue digits) else none

def readWidth (rest : List Char) : Option (Except String (Option Nat × List Char)) :=
  let digits := rest.takeWhile Char.isDigit
  (sliceFrom (byteLength digits) rest).map fun rest' =>
    if digits = [] then .ok (none,rest')
    else
      match parseUsize digits with
      | some width => .ok (some width,rest')
      | none => .error "invalid format width"

def readPrecision (rest : List Char) : Option (Except String (Option Nat × List Char)) :=
  match rest with
  | '.' :: stripped =>
    let digits := stripped.takeWhile Char.isDigit
    (sliceFrom (byteLength digits) stripped).map fun rest' =>
      match parseUsize digits with
      | some precision => .ok (some precision,rest')
      | none => .error "invalid format precision"
  | _ => some (.ok (none,rest))

/-- A `none` is a slice that panics. -/
def parseSpec (spec : List Char) : Option (Except String Spec) :=
  (readFill spec).bind fun filled =>
  (readOne ['+','-',' '] filled.2).bind fun signed =>
  (readOne ['0'] signed.2).bind fun zeroed =>
  (readWidth zeroed.2).bind fun
    | .error message => some (.error message)
    | .ok (width,rest) =>
      (readPrecision rest).bind fun
        | .error message => some (.error message)
        | .ok (precision,rest) => some (.ok ⟨filled.1.1,filled.1.2,zeroed.1,width,precision,rest.head?⟩)

/-- `str::parse::<i64>`. -/
def parseI64 (text : List Char) : Option Int :=
  let signed := text.head? = some '-' ∨ text.head? = some '+'
  let digits := if signed then text.tail else text
  let value : Int := if text.head? = some '-' then -(Digits.natValue digits : Int) else Digits.natValue digits
  if digits ≠ [] ∧ digits.all Char.isDigit ∧ -2 ^ 63 ≤ value ∧ value < 2 ^ 63 then some value else none

/-- An `i64` in another base, as a two's complement. -/
def inBase (base : Nat) (number : Int) : List Char := Nat.toDigits base (number % 2 ^ 64).toNat

section Render

variable {F : Type} (floats : Floats F)

def floatBody (value : Value) (write : F → List Char) : Except String (List Char) :=
  match floats.parse value.text with
  | some number => .ok (write number)
  | none => .error "invalid float format value"

def intBody (value : Value) (write : Int → List Char) : Except String (List Char) :=
  match parseI64 value.text with
  | some number => .ok (write number)
  | none => .error "invalid int format value"

/-- The body that `python_format` pads. -/
def pythonBody (value : Value) (spec : Spec) : Except String (List Char) :=
  let precision := spec.precision.getD 6
  match spec.kind with
  | none => textBody precision
  | some kind =>
    if kind = 's' then textBody precision
    else if kind = 'f' then floatBody floats value (floats.fixed precision)
    else if kind = 'd' then intBody value fun number => (toString number).toList
    else if kind = 'x' then intBody value (inBase 16)
    else if kind = 'X' then intBody value fun number => (inBase 16 number).map Char.toUpper
    else if kind = 'o' then intBody value (inBase 8)
    else if kind = 'b' then intBody value (inBase 2)
    else if kind = 'e' then floatBody floats value floats.exponent
    else .error ("unsupported format spec: " ++ String.singleton kind)
where
  textBody (precision : Nat) : Except String (List Char) :=
    if value.isNumber ∧ spec.precision.isSome then .ok (floats.fixed precision ((floats.parse value.text).getD floats.zero))
    else .ok value.text

def blanks (count : Nat) : List Char := List.replicate count ' '
def zeros (count : Nat) : List Char := List.replicate count '0'

/-- The width is compared with the number of bytes. -/
def padBody (spec : Spec) (body : List Char) : Option (List Char) :=
  match spec.width with
  | none => some body
  | some width =>
    if byteLength body < width then
      let padding := width - byteLength body
      match spec.align with
      | some .left => some (body ++ blanks padding)
      | some .center => some (blanks (padding / 2) ++ (body ++ blanks (padding - padding / 2)))
      | some .right => some (blanks padding ++ body)
      | none =>
        if spec.zeroPad then
          if body.head? = some '-' then (sliceFrom 1 body).map fun rest => '-' :: (zeros (padding - 1) ++ rest)
          else some (zeros padding ++ body)
        else some (blanks padding ++ body)
    else some body

def pythonFormat (value : Value) (spec : List Char) : Option (Except String (List Char)) :=
  if spec = [] then some (.ok value.text)
  else
    (parseSpec spec).bind fun
      | .error message => some (.error message)
      | .ok spec =>
        match pythonBody floats value spec with
        | .error message => some (.error message)
        | .ok body => (padBody spec body).map .ok

def integer (value : Value) : Except String Int :=
  match parseI64 value.text with
  | some number => .ok number
  | none =>
    match floats.parse value.text with
    | some number => .ok (floats.trunc number)
    | none => .error "a number is required for this conversion"

def float (value : Value) : Except String F :=
  match floats.parse value.text with
  | some number => .ok number
  | none => .error "a number is required for this conversion"

/-- The character of a number or the first one of a text. -/
def characterBody (value : Value) : Except String (List Char) :=
  if value.isNumber then
    (integer floats value).bind fun number =>
      match Unescape.fromU32 ((max number 0).toNat % 2 ^ 32) with
      | some character => .ok [character]
      | none => .error "not a valid character code"
  else .ok (value.text.take 1)

/-- The body that `percent_conversion` pads. -/
def percentBody (kind : Char) (value : Value) (precision : Option Nat) : Except String (List Char) :=
  if kind = 's' then .ok (match precision with | some precision => value.text.take precision | none => value.text)
  else if kind = 'r' ∨ kind = 'a' then .ok value.repr
  else if kind = 'd' ∨ kind = 'i' ∨ kind = 'u' then (integer floats value).map fun number => (toString number).toList
  else if kind = 'f' ∨ kind = 'F' then (float floats value).map (floats.fixed (precision.getD 6))
  else if kind = 'e' then (float floats value).map (floats.scientific (precision.getD 6))
  else if kind = 'E' then (float floats value).map (floats.scientificUpper (precision.getD 6))
  else if kind = 'g' then (float floats value).map (floats.general (precision.getD 6))
  else if kind = 'G' then (float floats value).map fun number => (floats.general (precision.getD 6) number).map Char.toUpper
  else if kind = 'x' then (integer floats value).map (inBase 16)
  else if kind = 'X' then (integer floats value).map fun number => (inBase 16 number).map Char.toUpper
  else if kind = 'o' then (integer floats value).map (inBase 8)
  else if kind = 'c' then characterBody floats value
  else .error ("unsupported format character " ++ kind.quote)

/-- The kinds of conversion that are padded with zeros. -/
def numericKind (kind : Char) : Bool := "diufFeEgGxXo".toList.contains kind

def padPercent (kind : Char) (flags : List Char) (width : Option Nat) (body : List Char) : Option (List Char) :=
  match width.filter (body.length < ·) with
  | none => some body
  | some width =>
    let padding := width - body.length
    if flags.contains '-' then some (body ++ blanks padding)
    else if flags.contains '0' && numericKind kind then
      if body.head? = some '-' ∨ body.head? = some '+' then (sliceTo 1 body).map (· ++ (zeros padding ++ body.tail))
      else some (zeros padding ++ body)
    else some (blanks padding ++ body)

def percentConversion (kind : Char) (value : Value) (flags : List Char) (width precision : Option Nat) :
    Option (Except String (List Char)) :=
  match percentBody floats kind value precision with
  | .error message => some (.error message)
  | .ok body => (padPercent kind flags width body).map .ok

end Render

section Law

/-- How a body is to be padded: up to a width, with zeros behind its sign or with a character on the sides that the
alignment names. -/
structure Layout where
  width : Nat
  zeros : Bool
  align : Option Align
  fill : Char

/-- The sign that zeros come behind. -/
def signLength (body : List Char) : Nat := if body.head? = some '-' ∨ body.head? = some '+' then 1 else 0

/-- How many characters may stand before and after a body. -/
def Sides : Option Align → Nat → Nat → Prop
  | some .left,before,_ => before = 0
  | some .right,_,after => after = 0
  | some .center,before,after => after = before ∨ after = before + 1
  | none,_,_ => True

def Layout.Padded (layout : Layout) (body result : List Char) : Prop :=
  if layout.zeros then
    ∃ count, result = body.take (signLength body) ++ (List.replicate count '0' ++ body.drop (signLength body))
  else
    ∃ before after, Sides layout.align before after ∧
      result = List.replicate before layout.fill ++ (body ++ List.replicate after layout.fill)

structure Layout.Obeyed (layout : Layout) (body result : List Char) : Prop where
  size : result.length = max layout.width body.length
  padded : layout.Padded body result

/-- What a specification asks for. An alignment takes precedence over zeros, and the fill is a blank without one. -/
def Spec.layout (spec : Spec) : Layout where
  width := spec.width.getD 0
  zeros := spec.zeroPad && spec.align.isNone
  align := spec.align
  fill := spec.fill.getD ' '

def percentLayout (kind : Char) (flags : List Char) (width : Option Nat) : Layout where
  width := width.getD 0
  zeros := !flags.contains '-' && (flags.contains '0' && numericKind kind)
  align := some (if flags.contains '-' then .left else .right)
  fill := ' '

/-- There is nothing to pad, or the body is ASCII, the fill is a blank, and zeros have no sign to come behind. -/
def Layout.Plain (layout : Layout) (body : List Char) : Prop :=
  layout.width ≤ body.length ∨
    (∀ c ∈ body, c.toNat < 128) ∧ if layout.zeros then signLength body = 0 else layout.fill = ' '

end Law

section Slices

theorem byteLength_cons (c : Char) (text : List Char) : byteLength (c :: text) = c.utf8Size + byteLength text := by
  rw [byteLength,List.map_cons,List.sum_cons]
  rfl

theorem length_le_byteLength (text : List Char) : text.length ≤ byteLength text := by
  induction text with
  | nil => exact Nat.le_refl _
  | cons c text ih =>
    have size := c.utf8Size_pos
    rw [byteLength_cons,List.length_cons]
    omega

theorem byteLength_ascii {text : List Char} : byteLength text = text.length ↔ ∀ c ∈ text, c.toNat < 128 := by
  induction text with
  | nil => exact iff_of_true rfl nofun
  | cons c text ih =>
    have size := c.utf8Size_pos
    have least := length_le_byteLength text
    have one : c.utf8Size = 1 ↔ c.toNat < 128 := Char.utf8Size_eq_one_iff.trans Nat.lt_succ_iff.symm
    rw [List.forall_mem_cons,← ih,← one,byteLength_cons,List.length_cons]
    omega

theorem sliceFrom_front (front back : List Char) : sliceFrom (byteLength front) (front ++ back) = some back := by
  induction front with
  | nil => cases back <;> rfl
  | cons c front ih =>
    have size := c.utf8Size_pos
    have positive : c.utf8Size + byteLength front ≠ 0 := by omega
    rw [byteLength_cons,List.cons_append,sliceFrom,if_neg positive,if_pos (Nat.le_add_right _ _),Nat.add_sub_cancel_left]
    exact ih

theorem sliceFrom_one {c : Char} (small : c.utf8Size = 1) (text : List Char) : sliceFrom 1 (c :: text) = some text := by
  have whole := sliceFrom_front [c] text
  rw [byteLength_cons,small] at whole
  exact whole

theorem readOne_total {set : List Char} (small : ∀ c ∈ set, c.utf8Size = 1) (rest : List Char) : ∃ read, readOne set rest = some read := by
  rw [readOne]
  split
  · next starts =>
    cases rest with
    | nil => cases starts
    | cons c rest => exact ⟨_,by rw [sliceFrom_one (small c (List.contains_iff_mem.mp starts)),Option.map_some]⟩
  · exact ⟨_,rfl⟩

theorem readWidth_total (rest : List Char) : ∃ read, readWidth rest = some read := by
  have whole := sliceFrom_front (rest.takeWhile Char.isDigit) (rest.dropWhile Char.isDigit)
  rw [List.takeWhile_append_dropWhile] at whole
  exact ⟨_,by rw [readWidth,whole,Option.map_some]⟩

theorem readPrecision_total (rest : List Char) : ∃ read, readPrecision rest = some read := by
  rw [readPrecision.eq_def]
  split
  · next stripped =>
    have whole := sliceFrom_front (stripped.takeWhile Char.isDigit) (stripped.dropWhile Char.isDigit)
    rw [List.takeWhile_append_dropWhile] at whole
    dsimp only
    rw [whole]
    exact ⟨_,rfl⟩
  · exact ⟨_,rfl⟩

theorem alignOf_some {c : Char} {align : Align} (is : alignOf c = some align) : c = '<' ∨ c = '>' ∨ c = '^' := by
  rw [alignOf] at is
  split at is
  · exact .inl ‹_›
  · split at is
    · exact .inr (.inl ‹_›)
    · split at is
      · exact .inr (.inr ‹_›)
      · cases is

/-- A text whose bytes begin with an ASCII one begins with an ASCII character. -/
theorem ascii_head {text : List Char} {byte : UInt8} {bytes : List UInt8} (first : Utf8.encode text = byte :: bytes)
    (low : byte < 128) : ∃ c rest, text = c :: rest ∧ c.utf8Size = 1 ∧ Utf8.encode rest = bytes := by
  cases text with
  | nil => cases first
  | cons c rest =>
    rw [Utf8.encode_cons] at first
    by_cases small : c.toNat < 128
    · rw [Utf8.encodeChar_ascii small] at first
      exact ⟨c,rest,rfl,Char.utf8Size_eq_one_iff.mpr (Nat.le_of_lt_succ small),(List.cons.inj first).2⟩
    · obtain ⟨high,more,shape⟩ := List.exists_cons_of_ne_nil (Utf8.encodeChar_ne_nil c)
      rw [shape] at first
      obtain ⟨rfl,_⟩ := List.cons.inj first
      have large := Utf8.encodeChar_high small high (by rw [shape]; exact List.mem_cons_self)
      exact absurd low (UInt8.not_lt.mpr large)

/-- An ASCII character in the second byte stands behind a character of one byte. -/
theorem ascii_second {text : List Char} {byte : UInt8} (second : (Utf8.encode text)[1]? = some byte) (low : byte < 128) :
    ∃ c d rest, text = c :: d :: rest ∧ c.utf8Size = 1 ∧ d.utf8Size = 1 := by
  cases text with
  | nil => cases second
  | cons c rest =>
    rw [Utf8.encode_cons] at second
    by_cases small : c.toNat < 128
    · rw [Utf8.encodeChar_ascii small] at second
      have first : (Utf8.encode rest)[0]? = some byte := second
      cases shape : Utf8.encode rest with
      | nil =>
        rw [shape] at first
        cases first
      | cons byte' bytes =>
        rw [shape] at first
        cases first
        obtain ⟨d,rest,rfl,size,_⟩ := ascii_head shape low
        exact ⟨c,d,rest,rfl,Char.utf8Size_eq_one_iff.mpr (Nat.le_of_lt_succ small),size⟩
    · have long : 1 < (String.utf8EncodeChar c).length := by
        have size := c.utf8Size_pos
        have more : c.utf8Size ≠ 1 := fun one => small (Nat.lt_succ_of_le (Char.utf8Size_eq_one_iff.mp one))
        rw [String.length_utf8EncodeChar]
        omega
      rw [List.getElem?_append_left long] at second
      have large := Utf8.encodeChar_high small byte (List.mem_of_getElem? second)
      exact absurd low (UInt8.not_lt.mpr large)

theorem alignByte_low {byte : UInt8} {align : Align} (is : alignOf (Char.ofNat byte.toNat) = some align) : byte < 128 := by
  have size := byte.toNat_lt
  have valid : byte.toNat.isValidChar := .inl (by omega)
  have code : (Char.ofNat byte.toNat).toNat = byte.toNat := by
    rw [Char.ofNat,dif_pos valid]
    rfl
  rw [UInt8.lt_iff_toNat_lt,← code]
  rcases alignOf_some is with same | same | same <;> rw [same] <;> decide

theorem readFill_total (rest : List Char) : ∃ read, readFill rest = some read := by
  rw [readFill.eq_def]
  split
  · next align found =>
    obtain ⟨byte,second,is⟩ := Option.bind_eq_some_iff.mp found
    obtain ⟨c,d,rest',rfl,small,small'⟩ := ascii_second second (alignByte_low is)
    have whole := sliceFrom_front [c,d] rest'
    rw [byteLength_cons,byteLength_cons,small,small'] at whole
    exact ⟨_,congrArg (Option.map _) whole⟩
  · split
    · exact ⟨_,rfl⟩
    · next first rest' _ =>
      split
      · next align is =>
        have whole := sliceFrom_front [first] rest'
        rw [byteLength_cons] at whole
        exact ⟨_,congrArg (Option.map _) whole⟩
      · exact ⟨_,rfl⟩

theorem parseSpec_total (spec : List Char) : ∃ read, parseSpec spec = some read := by
  obtain ⟨filled,fill⟩ := readFill_total spec
  obtain ⟨signed,sign⟩ := @readOne_total ['+','-',' '] (Text.forall_of_all (by decide)) filled.2
  obtain ⟨zeroed,zero⟩ := @readOne_total ['0'] (Text.forall_of_all (by decide)) signed.2
  obtain ⟨width,read⟩ := readWidth_total zeroed.2
  rw [parseSpec,fill,Option.bind_some,sign,Option.bind_some,zero,Option.bind_some,read,Option.bind_some]
  cases width with
  | error message => exact ⟨_,rfl⟩
  | ok found =>
    obtain ⟨precision,read⟩ := readPrecision_total found.2
    dsimp only
    rw [read,Option.bind_some]
    cases precision with
    | error message => exact ⟨_,rfl⟩
    | ok precision => exact ⟨_,rfl⟩

end Slices

section Padding

variable {layout : Layout} {body : List Char}

theorem sides_none (align : Option Align) : Sides align 0 0 := by
  rcases align with _ | _ | _ | _
  · trivial
  · rfl
  · rfl
  · exact .inl rfl

theorem obeyed_self (narrow : layout.width ≤ body.length) : layout.Obeyed body body := by
  refine ⟨(Nat.max_eq_right narrow).symm,?_⟩
  rw [Layout.Padded]
  split
  · exact ⟨0,(List.take_append_drop _ _).symm⟩
  · exact ⟨0,0,sides_none layout.align,(List.append_nil body).symm⟩

theorem obeyed_blanks (fills : layout.zeros = false) (wide : body.length < layout.width) {before after : Nat}
    (some : 0 < before + after) (sides : Sides layout.align before after) :
    layout.Obeyed body (blanks before ++ (body ++ blanks after)) ↔
      body.length + (before + after) = layout.width ∧ layout.fill = ' ' := by
  have size : (blanks before ++ (body ++ blanks after)).length = body.length + (before + after) := by
    simp only [blanks,List.length_append,List.length_replicate]
    omega
  constructor
  · intro obeyed
    have whole := obeyed.size
    rw [size,Nat.max_eq_left (Nat.le_of_lt wide)] at whole
    refine ⟨whole,?_⟩
    have padded := obeyed.padded
    rw [Layout.Padded,fills,if_neg Bool.false_ne_true] at padded
    obtain ⟨before',after',_,same⟩ := padded
    -- There are more blanks than those of the body.
    have counts := congrArg (List.count ' ') same
    simp only [blanks,List.count_append,List.count_replicate] at counts
    by_contra other
    have differ : (layout.fill == ' ') = false := beq_eq_false_iff_ne.mpr other
    simp only [differ,BEq.rfl,Bool.false_eq_true,if_true,if_false] at counts
    omega
  · rintro ⟨whole,blank⟩
    refine ⟨by rw [size,whole,Nat.max_eq_left (Nat.le_of_lt wide)],?_⟩
    rw [Layout.Padded,fills,if_neg Bool.false_ne_true,blank]
    exact ⟨before,after,sides,rfl⟩

theorem obeyed_zeros (zeroed : layout.zeros = true) (wide : body.length < layout.width) {padding : Nat} (some : 0 < padding) :
    layout.Obeyed body (zeros padding ++ body) ↔ body.length + padding = layout.width ∧ signLength body = 0 := by
  have size : (zeros padding ++ body).length = body.length + padding := by
    rw [zeros,List.length_append,List.length_replicate,Nat.add_comm]
  constructor
  · intro obeyed
    have whole := obeyed.size
    rw [size,Nat.max_eq_left (Nat.le_of_lt wide)] at whole
    refine ⟨whole,?_⟩
    have padded := obeyed.padded
    rw [Layout.Padded,zeroed,if_pos rfl] at padded
    obtain ⟨count,same⟩ := padded
    by_contra signed
    have first : body.head? = .some '-' ∨ body.head? = .some '+' := by
      by_contra unsigned
      exact signed (if_neg unsigned)
    have length : signLength body = 1 := if_pos first
    obtain ⟨padding,rfl⟩ := Nat.exists_eq_add_of_lt some
    cases body with
    | nil => rcases first with first | first <;> cases first
    | cons c rest =>
      rw [length,Nat.zero_add,zeros,List.replicate_succ,List.cons_append] at same
      have heads := (List.cons.inj same).1
      rcases first with first | first
      · cases first
        exact absurd heads (by decide)
      · cases first
        exact absurd heads (by decide)
  · rintro ⟨whole,unsigned⟩
    refine ⟨by rw [size,whole,Nat.max_eq_left (Nat.le_of_lt wide)],?_⟩
    rw [Layout.Padded,zeroed,if_pos rfl,unsigned]
    exact ⟨padding,rfl⟩

/-- Zeros behind the sign. -/
theorem obeyed_signed (zeroed : layout.zeros = true) (wide : body.length < layout.width)
    (signed : body.head? = some '-' ∨ body.head? = some '+') {padding : Nat} (whole : body.length + padding = layout.width) :
    layout.Obeyed body (body.take 1 ++ (zeros padding ++ body.tail)) := by
  have length : signLength body = 1 := if_pos signed
  constructor
  · cases body with
    | nil => rcases signed with signed | signed <;> cases signed
    | cons c rest =>
      simp only [zeros,List.length_append,List.length_replicate,List.take_succ_cons,List.take_zero,List.tail_cons,List.length_cons,
        List.length_nil] at whole wide ⊢
      omega
  · rw [Layout.Padded,zeroed,if_pos rfl,length,List.drop_one]
    exact ⟨padding,rfl⟩

end Padding

theorem slice_sign {c : Char} (sign : c = '-' ∨ c = '+') (rest : List Char) :
    sliceTo 1 (c :: rest) = some [c] ∧ sliceFrom 1 (c :: rest) = some rest := by
  have small : c.utf8Size = 1 := by
    rcases sign with rfl | rfl <;> rfl
  have front := sliceTo_front [c] rest
  rw [byteLength_cons,small] at front
  exact ⟨front,sliceFrom_one small rest⟩

/-- A wide body: the width is met when the body is ASCII, since the padding is counted in bytes. -/
theorem width_ascii {body : List Char} {width : Nat} (wide : byteLength body < width) :
    body.length + (width - byteLength body) = width ↔ ∀ c ∈ body, c.toNat < 128 := by
  have least := length_le_byteLength body
  rw [← byteLength_ascii]
  omega

/-- `python_format` pads as the specification asks exactly in these cases. -/
theorem padBody_obeyed (spec : Spec) (body : List Char) :
    ∃ result, padBody spec body = some result ∧ (spec.layout.Obeyed body result ↔ spec.layout.Plain body) := by
  have least := length_le_byteLength body
  cases given : spec.width with
  | none =>
    have narrow : spec.layout.width ≤ body.length := by
      rw [Spec.layout,given]
      exact Nat.zero_le _
    exact ⟨body,by rw [padBody,given],iff_of_true (obeyed_self narrow) (.inl narrow)⟩
  | some width =>
    have asked : spec.layout.width = width := by rw [Spec.layout,given]; rfl
    by_cases wide : byteLength body < width
    · have room : body.length < spec.layout.width := by omega
      have some : 0 < width - byteLength body := Nat.sub_pos_of_lt wide
      have plain : spec.layout.Plain body ↔
          (∀ c ∈ body, c.toNat < 128) ∧ if spec.layout.zeros then signLength body = 0 else spec.layout.fill = ' ' :=
        or_iff_right (Nat.not_le.mpr room)
      rw [plain]
      by_cases zeroed : spec.layout.zeros = true
      · obtain ⟨zero,free⟩ := Bool.and_eq_true_iff.mp zeroed
        have aligned : spec.align = none := Option.isNone_iff_eq_none.mp free
        rw [if_pos zeroed]
        by_cases negative : body.head? = .some '-'
        · cases body with
          | nil => cases negative
          | cons c rest =>
            cases negative
            refine ⟨'-' :: (zeros (width - byteLength ('-' :: rest) - 1) ++ rest),?_,?_⟩
            · simp only [padBody,given,aligned,zero,if_pos wide,if_true,List.head?_cons,(slice_sign (.inl rfl) rest).2,Option.map_some]
            · refine iff_of_false (fun obeyed => ?_) fun both => absurd both.2 (by simp [signLength])
              have size := obeyed.size
              rw [asked,Nat.max_eq_left (by omega)] at size
              simp only [zeros,List.length_cons,List.length_append,List.length_replicate] at size least room
              omega
        · refine ⟨zeros (width - byteLength body) ++ body,?_,?_⟩
          · simp only [padBody,given,aligned,zero,if_pos wide,if_true,if_neg negative]
          · rw [obeyed_zeros zeroed room some,asked,width_ascii wide]
      · have fills : spec.layout.zeros = false := Bool.eq_false_iff.mpr zeroed
        have padded (before after : Nat) (total : before + after = width - byteLength body) (sides : Sides spec.layout.align before after) :
            spec.layout.Obeyed body (blanks before ++ (body ++ blanks after)) ↔
              (∀ c ∈ body, c.toNat < 128) ∧ spec.layout.fill = ' ' := by
          rw [obeyed_blanks fills room (by omega) sides,total,asked,width_ascii wide]
        rw [if_neg zeroed]
        cases aligned : spec.align with
        | none =>
          have zero : spec.zeroPad = false := by
            cases zero : spec.zeroPad with
            | false => rfl
            | true => exact absurd (by rw [Spec.layout,zero,aligned]; rfl) zeroed
          refine ⟨blanks (width - byteLength body) ++ (body ++ blanks 0),?_,padded _ 0 rfl ?_⟩
          · simp only [padBody,given,aligned,zero,if_pos wide,Bool.false_eq_true,if_false,blanks,List.replicate_zero,List.append_nil]
          · rw [Spec.layout,aligned]
            trivial
        | some align =>
          cases align with
          | left =>
            refine ⟨blanks 0 ++ (body ++ blanks (width - byteLength body)),?_,padded 0 _ (Nat.zero_add _) ?_⟩
            · simp only [padBody,given,aligned,if_pos wide,blanks,List.replicate_zero,List.nil_append]
            · rw [Spec.layout,aligned]
              rfl
          | right =>
            refine ⟨blanks (width - byteLength body) ++ (body ++ blanks 0),?_,padded _ 0 rfl ?_⟩
            · simp only [padBody,given,aligned,if_pos wide,blanks,List.replicate_zero,List.append_nil]
            · rw [Spec.layout,aligned]
              rfl
          | center =>
            refine ⟨blanks ((width - byteLength body) / 2) ++
              (body ++ blanks (width - byteLength body - (width - byteLength body) / 2)),?_,padded _ _ (by omega) ?_⟩
            · simp only [padBody,given,aligned,if_pos wide]
            · rw [Spec.layout,aligned,Sides]
              omega
    · refine ⟨body,by simp only [padBody,given,if_neg wide],?_⟩
      constructor
      · intro obeyed
        have size := obeyed.size
        rw [asked] at size
        exact .inl (by omega)
      · rintro (narrow | ⟨ascii,_⟩)
        · exact obeyed_self narrow
        · rw [← byteLength_ascii] at ascii
          exact obeyed_self (by omega)

/-- `percent_conversion` always pads as its flags ask. -/
theorem padPercent_obeyed (kind : Char) (flags : List Char) (width : Option Nat) (body : List Char) :
    ∃ result, padPercent kind flags width body = some result ∧ (percentLayout kind flags width).Obeyed body result := by
  cases wider : width.filter (body.length < ·) with
  | none =>
    refine ⟨body,by rw [padPercent,wider],obeyed_self ?_⟩
    cases width with
    | none => exact Nat.zero_le _
    | some width =>
      have narrow := Option.filter_eq_none_iff.mp wider width rfl
      exact Nat.not_lt.mp fun wide => narrow (decide_eq_true wide)
  | some width' =>
    obtain ⟨same,wide⟩ := Option.filter_eq_some_iff.mp wider
    have wide : body.length < width' := of_decide_eq_true wide
    subst same
    have some : 0 < width' - body.length := Nat.sub_pos_of_lt wide
    have total : body.length + (width' - body.length) = width' := Nat.add_sub_cancel' (Nat.le_of_lt wide)
    rw [padPercent,wider]
    dsimp only
    by_cases left : flags.contains '-' = true
    · have fills : (percentLayout kind flags (.some width')).zeros = false := by simp only [percentLayout,left,Bool.not_true,Bool.false_and]
      refine ⟨_,if_pos left,?_⟩
      have sides : Sides (percentLayout kind flags (.some width')).align 0 (width' - body.length) := by
        rw [percentLayout,if_pos left]
        rfl
      exact (obeyed_blanks fills wide (by omega) sides).mpr ⟨by rw [Nat.zero_add]; exact total,rfl⟩
    · rw [if_neg left]
      by_cases zero : (flags.contains '0' && numericKind kind) = true
      · have zeroed : (percentLayout kind flags (.some width')).zeros = true := by
          simp only [percentLayout,zero,left,Bool.not_false,Bool.and_true]
        rw [if_pos zero]
        by_cases signed : body.head? = .some '-' ∨ body.head? = .some '+'
        · rw [if_pos signed]
          cases body with
          | nil => rcases signed with signed | signed <;> cases signed
          | cons c rest =>
            have sign : c = '-' ∨ c = '+' := signed.imp Option.some.inj Option.some.inj
            refine ⟨_,congrArg (Option.map _) (slice_sign sign rest).1,?_⟩
            exact obeyed_signed zeroed wide signed total
        · refine ⟨_,if_neg signed,?_⟩
          exact (obeyed_zeros zeroed wide some).mpr ⟨total,if_neg signed⟩
      · have fills : (percentLayout kind flags (.some width')).zeros = false := by
          simp only [percentLayout,Bool.eq_false_iff.mpr zero,Bool.and_false]
        refine ⟨_,if_neg zero,?_⟩
        have sides : Sides (percentLayout kind flags (.some width')).align (width' - body.length) 0 := by
          rw [percentLayout,if_neg left]
          rfl
        have obeyed := (obeyed_blanks fills wide (by omega) sides).mpr ⟨total,rfl⟩
        rw [show body ++ blanks 0 = body from List.append_nil body] at obeyed
        exact obeyed

/-- A fill of more bytes than one is taken for the type. -/
theorem wide_fill_refused {F : Type} (floats : Floats F) (value : Value) {fill : Char} (wide : ¬ fill.toNat < 128) (rest : List Char) :
    pythonFormat floats value (fill :: rest) = some (.error ("unsupported format spec: " ++ String.singleton fill)) := by
  have other (c : Char) (small : c.toNat < 128) : fill ≠ c := fun same => wide (same ▸ small)
  have long : 1 < (String.utf8EncodeChar fill).length := by
    have size := fill.utf8Size_pos
    have more : fill.utf8Size ≠ 1 := fun one => wide (Nat.lt_succ_of_le (Char.utf8Size_eq_one_iff.mp one))
    rw [String.length_utf8EncodeChar]
    omega
  have second : (Utf8.encode (fill :: rest))[1]?.bind (fun byte => alignOf (Char.ofNat byte.toNat)) = none := by
    cases found : (Utf8.encode (fill :: rest))[1]? with
    | none => rfl
    | some byte =>
      rw [Utf8.encode_cons,List.getElem?_append_left long] at found
      have large := Utf8.encodeChar_high wide byte (List.mem_of_getElem? found)
      refine Option.eq_none_iff_forall_ne_some.mpr fun align is => ?_
      exact absurd (alignByte_low is) (UInt8.not_lt.mpr large)
  have none : alignOf fill = .none := by
    rw [alignOf,if_neg (other '<' (by decide)),if_neg (other '>' (by decide)),if_neg (other '^' (by decide))]
  have filled : readFill (fill :: rest) = some ((.none,.none),fill :: rest) := by
    rw [readFill.eq_def,second]
    dsimp only
    rw [none]
  have unset {set : List Char} (small : ∀ c ∈ set, c.toNat < 128) : readOne set (fill :: rest) = some (false,fill :: rest) := by
    refine if_neg fun inside => ?_
    exact wide (small fill (List.contains_iff_mem.mp inside))
  have digit : fill.isDigit = false := by
    refine Bool.eq_false_iff.mpr fun digit => ?_
    have most := (Digits.isDigit_iff.mp digit).2
    omega
  have unsized : readWidth (fill :: rest) = some (.ok (.none,fill :: rest)) := by
    rw [readWidth,List.takeWhile_cons_of_neg (by rw [digit]; exact Bool.false_ne_true)]
    rfl
  have imprecise : readPrecision (fill :: rest) = some (.ok (.none,fill :: rest)) := by
    rw [readPrecision.eq_def]
    split
    · next same => exact absurd (List.cons.inj same).1 (other '.' (by decide))
    · rfl
  have read : parseSpec (fill :: rest) = some (.ok ⟨.none,.none,false,.none,.none,some fill⟩) := by
    rw [parseSpec,filled,Option.bind_some,unset (Text.forall_of_all (by decide)),Option.bind_some,
      unset (Text.forall_of_all (by decide)),Option.bind_some,unsized,Option.bind_some]
    dsimp only
    rw [imprecise]
    rfl
  have body : pythonBody floats value ⟨.none,.none,false,.none,.none,some fill⟩ =
      .error ("unsupported format spec: " ++ String.singleton fill) := by
    simp only [pythonBody,if_neg (other 's' (by decide)),if_neg (other 'f' (by decide)),if_neg (other 'd' (by decide)),
      if_neg (other 'x' (by decide)),if_neg (other 'X' (by decide)),if_neg (other 'o' (by decide)),
      if_neg (other 'b' (by decide)),if_neg (other 'e' (by decide))]
  rw [pythonFormat,if_neg (List.cons_ne_nil _ _),read,Option.bind_some]
  dsimp only
  rw [body]

/-- No specification makes a slice panic. What `python_format` makes of a body is laid out as the specification asks exactly
when there is nothing to pad, or the body is ASCII, the fill a blank and no sign stands before zeros; what
`percent_conversion` makes of it always is. -/
theorem format_laid_out {F : Type} (floats : Floats F) (value : Value) :
    (∀ spec, ∃ outcome, pythonFormat floats value spec = some outcome) ∧
      (∀ spec parsed body result, parseSpec spec = some (.ok parsed) → pythonBody floats value parsed = .ok body →
        pythonFormat floats value spec = some (.ok result) → (parsed.layout.Obeyed body result ↔ parsed.layout.Plain body)) ∧
      ∀ kind flags width precision body, percentBody floats kind value precision = .ok body →
        ∃ result, percentConversion floats kind value flags width precision = some (.ok result) ∧
          (percentLayout kind flags width).Obeyed body result := by
  refine ⟨fun spec => ?_,fun spec parsed body result read rendered formatted => ?_,fun kind flags width precision body rendered => ?_⟩
  · rw [pythonFormat]
    split
    · exact ⟨_,rfl⟩
    · obtain ⟨parsed,read⟩ := parseSpec_total spec
      rw [read,Option.bind_some]
      cases parsed with
      | error message => exact ⟨_,rfl⟩
      | ok parsed =>
        dsimp only
        split
        · exact ⟨_,rfl⟩
        · next body _ =>
          obtain ⟨result,padded,_⟩ := padBody_obeyed parsed body
          exact ⟨_,congrArg (Option.map Except.ok) padded⟩
  · obtain ⟨result',padded,obeyed⟩ := padBody_obeyed parsed body
    rw [pythonFormat] at formatted
    split at formatted
    · next empty =>
      subst empty
      cases read
      have whole : pythonBody floats value ⟨none,none,false,none,none,none⟩ = .ok value.text :=
        if_neg fun both => absurd both.2 Bool.false_ne_true
      cases whole.symm.trans rendered
      cases formatted
      exact iff_of_true (obeyed_self (Nat.zero_le _)) (.inl (Nat.zero_le _))
    · rw [read,Option.bind_some] at formatted
      dsimp only at formatted
      rw [rendered] at formatted
      dsimp only at formatted
      rw [padded] at formatted
      cases formatted
      exact obeyed
  · obtain ⟨result,padded,obeyed⟩ := padPercent_obeyed kind flags width body
    exact ⟨result,by rw [percentConversion,rendered]; exact congrArg (Option.map Except.ok) padded,obeyed⟩

/-- No text is read as a number of type `f64`. -/
def noFloats : Floats Unit := ⟨fun _ => none,(),fun _ _ => [],fun _ => [],fun _ _ => [],fun _ _ => [],fun _ _ => [],fun _ => 0⟩

def fiveColumns : Spec := ⟨none,some .left,false,some 5,none,none⟩

theorem text_laid_out : fiveColumns.layout.Obeyed "ab".toList "ab   ".toList := by
  have laid := (format_laid_out noFloats ⟨"ab".toList,false,[]⟩).2.1 "<5".toList fiveColumns "ab".toList "ab   ".toList rfl rfl rfl
  exact laid.mpr (.inr ⟨Text.forall_of_all (by decide),rfl⟩)

/-- A negative number with zeros is one character short. -/
theorem negative_short : ¬ ∀ (value : Value) (spec : List Char) (parsed : Spec) (body result : List Char),
    parseSpec spec = some (.ok parsed) → pythonBody noFloats value parsed = .ok body →
      pythonFormat noFloats value spec = some (.ok result) → parsed.layout.Obeyed body result := by
  intro all
  have obeyed := all ⟨"-5".toList,true,[]⟩ "05".toList ⟨none,none,true,some 5,none,none⟩ "-5".toList "-005".toList rfl rfl rfl
  exact absurd obeyed.size (by decide)

end Qdrust.Expression.FormatSpec
