import Mathlib.Tactic.IntervalCases
import Qdrust.Library.Machine

/-! One line of uuencoded data: the length, then four printable characters for every three
bytes. A `none` is a build that stops because a result does not fit. -/
namespace Qdrust.Codec.Uu
open Library Machine

/-- The sextets of three bytes. -/
def sextets (b0 b1 b2 : UInt8) : List UInt8 :=
  [b0 >>> 2,((b0 &&& 0x03) <<< 4) ||| (b1 >>> 4),((b1 &&& 0x0f) <<< 2) ||| (b2 >>> 6),b2 &&& 0x3f]

/-- `(b' ' + sextet) as char`. -/
def printable (build : Build) (sextet : UInt8) : Option Char := (fit build 8 (' '.toNat + sextet.toNat)).map Char.ofNat

/-- The chunks of three bytes; what the last one lacks is zero. -/
def encodeChunks (build : Build) : List UInt8 → Option (List Char)
  | [] => some []
  | [b0] => (sextets b0 0 0).mapM (printable build)
  | [b0,b1] => (sextets b0 b1 0).mapM (printable build)
  | b0 :: b1 :: b2 :: rest => do
    let front ← (sextets b0 b1 b2).mapM (printable build)
    let back ← encodeChunks build rest
    return front ++ back

/-- `uuencode_line`. -/
def uuencodeLine (build : Build) (data : List UInt8) : Option String :=
  if data.isEmpty then some "`\n"
  else do
    let header ← fit build 8 (' '.toNat + data.length % 256)
    let body ← encodeChunks build data
    return String.ofList (Char.ofNat header :: body ++ ['\n'])

/-- `(c as u8).saturating_sub(b' ').min(63)`. -/
def sextetOf (c : Char) : UInt8 := UInt8.ofNat (min (c.toNat - ' '.toNat) 63)

def octets (g0 g1 g2 g3 : UInt8) : List UInt8 :=
  [(g0 <<< 2) ||| (g1 >>> 4),((g1 &&& 0x0f) <<< 4) ||| (g2 >>> 2),((g2 &&& 0x03) <<< 6) ||| g3]

/-- The chunks of four sextets; what the last one lacks is zero. -/
def decodeChunks : List UInt8 → List UInt8
  | [] => []
  | [g0] => octets g0 0 0 0
  | [g0,g1] => octets g0 g1 0 0
  | [g0,g1,g2] => octets g0 g1 g2 0
  | g0 :: g1 :: g2 :: g3 :: rest => octets g0 g1 g2 g3 ++ decodeChunks rest

/-- `uudecode_line`. -/
def uudecodeLine (build : Build) (line : String) : Option (List UInt8) :=
  match line.toList with
  | [] => some []
  | first :: rest => do
    let length ← sub build 32 first.toNat ' '.toNat
    return (decodeChunks ((rest.filter fun c => c.toNat < 128).map sextetOf)).take length

theorem octets_sextets (b0 b1 b2 : UInt8) : ∃ g0 g1 g2 g3, sextets b0 b1 b2 = [g0,g1,g2,g3] ∧ octets g0 g1 g2 g3 = [b0,b1,b2] := by
  refine ⟨_,_,_,_,rfl,?_⟩
  have bits (x y : UInt8) (same : ∀ i < 8, x.toBitVec.getLsbD i = y.toBitVec.getLsbD i) : x = y :=
    UInt8.toBitVec_inj.mp (BitVec.eq_of_getLsbD_eq same)
  rw [octets,List.cons.injEq,List.cons.injEq,List.cons.injEq]
  refine ⟨bits _ _ fun i below => ?_,bits _ _ fun i below => ?_,bits _ _ fun i below => ?_,rfl⟩
  all_goals
    interval_cases i <;> simp

theorem and_le (x mask : UInt8) : (x &&& mask).toNat ≤ mask.toNat := by
  rw [UInt8.toNat_and]
  exact Nat.and_le_right

theorem sextets_small (b0 b1 b2 : UInt8) : ∀ sextet ∈ sextets b0 b1 b2, sextet.toNat < 64 := by
  have bits (x : UInt8) (high : ∀ i < 8, 6 ≤ i → x.toBitVec.getLsbD i = false) : x.toNat < 64 := by
    have same : x = x &&& 0x3f := UInt8.toBitVec_inj.mp (BitVec.eq_of_getLsbD_eq fun i below => by
      have zero := high i below
      interval_cases i <;> simp_all)
    rw [same]
    exact Nat.lt_of_le_of_lt (and_le x 0x3f) (by decide)
  intro sextet there
  simp only [sextets,List.mem_cons,List.not_mem_nil,or_false] at there
  rcases there with rfl | rfl | rfl | rfl
  all_goals
    refine bits _ fun i below high => ?_
    interval_cases i <;> simp

/-- The sextets of all chunks. -/
def allSextets : List UInt8 → List UInt8
  | [] => []
  | [b0] => sextets b0 0 0
  | [b0,b1] => sextets b0 b1 0
  | b0 :: b1 :: b2 :: rest => sextets b0 b1 b2 ++ allSextets rest

def shown (sextet : UInt8) : Char := Char.ofNat (' '.toNat + sextet.toNat)

theorem allSextets_small (data : List UInt8) : ∀ sextet ∈ allSextets data, sextet.toNat < 64 := by
  induction data using allSextets.induct with
  | case1 => exact List.forall_mem_nil _
  | case2 b0 => exact sextets_small b0 0 0
  | case3 b0 b1 => exact sextets_small b0 b1 0
  | case4 b0 b1 b2 rest ih =>
    intro sextet there
    rw [allSextets] at there
    exact (List.mem_append.mp there).elim (sextets_small b0 b1 b2 sextet) (ih sextet)

theorem printable_shown (build : Build) {chunk : List UInt8} (small : ∀ sextet ∈ chunk, sextet.toNat < 64) :
    chunk.mapM (printable build) = some (chunk.map shown) := by
  induction chunk with
  | nil => rfl
  | cons sextet chunk ih =>
    rw [List.forall_mem_cons] at small
    have fits : ' '.toNat + sextet.toNat < 2 ^ 8 := by
      simp only [Char.reduceToNat]
      omega
    rw [List.mapM_cons,ih small.2,printable,fit_inside build fits]
    rfl

/-- No sum of the encoder overflows. -/
theorem encodeChunks_shown (build : Build) (data : List UInt8) :
    encodeChunks build data = some ((allSextets data).map shown) := by
  induction data using allSextets.induct with
  | case1 => rfl
  | case2 b0 => exact printable_shown build (sextets_small b0 0 0)
  | case3 b0 b1 => exact printable_shown build (sextets_small b0 b1 0)
  | case4 b0 b1 b2 rest ih =>
    rw [encodeChunks,printable_shown build (sextets_small b0 b1 b2),ih,allSextets,List.map_append]
    rfl

theorem ascii_toNat : ∀ n < 128, (Char.ofNat n).toNat = n := by decide

theorem shown_toNat {sextet : UInt8} (small : sextet.toNat < 64) : (shown sextet).toNat = 32 + sextet.toNat := by
  rw [shown]
  exact ascii_toNat (32 + sextet.toNat) (by omega)

theorem sextetOf_shown {sextet : UInt8} (small : sextet.toNat < 64) : sextetOf (shown sextet) = sextet := by
  rw [sextetOf,shown_toNat small]
  simp only [Char.reduceToNat]
  rw [Nat.add_sub_cancel_left,Nat.min_eq_left (by omega),UInt8.ofNat_toNat]

/-- What is shown, with the line break behind it, is read as the data and what fills the last chunks. -/
theorem decodeChunks_sextets (data : List UInt8) : ∃ filling, decodeChunks (allSextets data ++ [0]) = data ++ filling := by
  induction data using allSextets.induct with
  | case1 => exact ⟨_,rfl⟩
  | case2 b0 =>
    obtain ⟨g0,g1,g2,g3,same,octets⟩ := octets_sextets b0 0 0
    refine ⟨[0,0] ++ decodeChunks [0],?_⟩
    rw [allSextets,same]
    change Uu.octets g0 g1 g2 g3 ++ _ = _
    rw [octets]
    rfl
  | case3 b0 b1 =>
    obtain ⟨g0,g1,g2,g3,same,octets⟩ := octets_sextets b0 b1 0
    refine ⟨[0] ++ decodeChunks [0],?_⟩
    rw [allSextets,same]
    change Uu.octets g0 g1 g2 g3 ++ _ = _
    rw [octets]
    rfl
  | case4 b0 b1 b2 rest ih =>
    obtain ⟨g0,g1,g2,g3,same,octets⟩ := octets_sextets b0 b1 b2
    obtain ⟨filling,rest⟩ := ih
    refine ⟨filling,?_⟩
    rw [allSextets,same]
    change Uu.octets g0 g1 g2 g3 ++ decodeChunks (allSextets _ ++ [0]) = _
    rw [octets,rest]
    rfl

theorem uuencodeLine_some (build : Build) {data : List UInt8} (some : data ≠ []) (short : data.length ≤ 45) :
    uuencodeLine build data =
      .some (String.ofList (Char.ofNat (32 + data.length) :: (allSextets data).map shown ++ ['\n'])) := by
  have header : fit build 8 (' '.toNat + data.length % 256) = .some (32 + data.length) := by
    rw [Nat.mod_eq_of_lt (by omega)]
    exact fit_inside build (by simp only [Char.reduceToNat]; omega)
  rw [uuencodeLine,if_neg (by rw [List.isEmpty_iff]; exact some),header,encodeChunks_shown]
  rfl

theorem uudecodeLine_encoded (build : Build) {data : List UInt8} (short : data.length ≤ 45) :
    uudecodeLine build (String.ofList (Char.ofNat (32 + data.length) :: (allSextets data).map shown ++ ['\n'])) = some data := by
  have code : (Char.ofNat (32 + data.length)).toNat = 32 + data.length := ascii_toNat _ (by omega)
  have ascii : (((allSextets data).map shown ++ ['\n']).filter fun c => c.toNat < 128) = (allSextets data).map shown ++ ['\n'] := by
    refine List.filter_eq_self.mpr fun c there => ?_
    rcases List.mem_append.mp there with there | there
    · obtain ⟨sextet,member,rfl⟩ := List.mem_map.mp there
      have small := allSextets_small data sextet member
      rw [shown_toNat small]
      exact decide_eq_true (by omega)
    · rw [List.mem_singleton.mp there]
      rfl
  have read : ((allSextets data).map shown ++ ['\n']).map sextetOf = allSextets data ++ [0] := by
    have each : (allSextets data).map (sextetOf ∘ shown) = (allSextets data).map id :=
      List.map_congr_left fun sextet there => sextetOf_shown (allSextets_small data sextet there)
    rw [List.map_append,List.map_map,each,List.map_id]
    rfl
  obtain ⟨filling,decoded⟩ := decodeChunks_sextets data
  rw [uudecodeLine,String.toList_ofList]
  dsimp only [List.cons_append]
  rw [code,sub_inside build (by simp only [Char.reduceToNat]; omega),ascii,read,decoded]
  simp only [Char.reduceToNat,Nat.add_sub_cancel_left,Option.bind_eq_bind,Option.bind_some,List.take_left,pure]

/-- A line of at most 45 bytes is read back exactly when it has a byte, and a line is read without
an underflow exactly when it is empty or starts with a blank or a character after it. -/
theorem uu_line_iff (build : Build) {data : List UInt8} (short : data.length ≤ 45) (line : String) :
    ((uuencodeLine build data).bind (uudecodeLine build) = some data ↔ data ≠ []) ∧
      ((uudecodeLine .debug line).isSome ↔ ∀ first ∈ line.toList.head?, ' '.toNat ≤ first.toNat) := by
  refine ⟨⟨?_,fun some => ?_⟩,?_⟩
  · rintro same rfl
    cases build <;> exact absurd same (by decide)
  · rw [uuencodeLine_some build some short]
    exact uudecodeLine_encoded build short
  · unfold uudecodeLine
    cases line.toList with
    | nil => exact iff_of_true rfl fun _ there => nomatch there
    | cons first rest =>
      dsimp only [List.head?_cons]
      by_cases blank : ' '.toNat ≤ first.toNat
      · rw [sub_inside _ blank]
        refine iff_of_true rfl fun other there => ?_
        cases there
        exact blank
      · rw [sub_outside blank]
        exact iff_of_false Bool.false_ne_true fun all => blank (all first rfl)

theorem uu_line_cat : (uuencodeLine .debug [67,97,116]).bind (uudecodeLine .debug) = some [67,97,116] :=
  (uu_line_iff .debug (by decide) "#0V%T\n").1.mpr (by decide)

/-- No byte is read back as three zeros, and a line break alone is below a blank. -/
theorem uu_empty_line : ¬((∀ build data, data.length ≤ 45 → (uuencodeLine build data).bind (uudecodeLine build) = some data) ∧
    ∀ line, (uudecodeLine .debug line).isSome) ∧
    (uuencodeLine .release []).bind (uudecodeLine .release) = some [0,0,0] ∧ uudecodeLine .debug "\n" = none := by
  have zeros : (uuencodeLine .release []).bind (uudecodeLine .release) = some [0,0,0] := by decide
  refine ⟨fun claimed => ?_,zeros,by decide⟩
  have same := claimed.1 .release [] (by decide)
  rw [zeros] at same
  exact absurd same (by decide)

end Qdrust.Codec.Uu
