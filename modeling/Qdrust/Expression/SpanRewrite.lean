import Qdrust.Expression.Spans

/-! The two passes of the rewriter over offsets of bytes. Each comes to an end, no slice
cuts a character, and what is written is the text of the passes over characters. -/
namespace Qdrust.Expression.Spans
open Library Slices

section Source

/-- What a pass returns. -/
def rewritten (changed : Bool) (out : List Char) : Option (List Char) := if changed then some out else none

/-- The loop of `rewrite_percent`. -/
def percentLoop (tables : CharTables) (text : List Char) : Nat → List Char → Bool → Nat → Option (Option (List Char))
  | 0,_,_,_ => none
  | fuel + 1,out,changed,index =>
    if index < size text then do
      let rest ← sliceFrom text index
      let character ← rest.head?
      if (Quote.kind character).isNone then
        percentLoop tables text fuel (out ++ [character]) changed (index + character.utf8Size)
      else
        match ← stringEnd text index with
        | none => some (rewritten changed (out ++ rest))
        | some literalEnd =>
          let literal ← slice text index literalEnd
          let after ← skipSpaces text literalEnd
          let remainder ← sliceFrom text after
          if remainder.head? ≠ some '%' ∨ ['%','%'] <+: remainder ∨ ['%','='] <+: remainder then
            percentLoop tables text fuel (out ++ literal) changed literalEnd
          else
            match ← primaryEnd tables text (after + 1) with
            | none => percentLoop tables text fuel (out ++ literal) changed literalEnd
            | some valuesEnd =>
              let values ← slice text (after + 1) valuesEnd
              percentLoop tables text fuel
                (out ++ "__qdm_percent(".toList ++ literal ++ ", ".toList ++ trim values ++ [')']) true valuesEnd
    else some (rewritten changed out)

def rewritePercent (tables : CharTables) (text : List Char) : Option (Option (List Char)) :=
  percentLoop tables text (text.length + 1) [] false 0

/-- The variables of `rewrite_methods`. -/
structure Scan where
  index : Nat
  out : List Char
  primaryStart : Option Nat
  primaryStop : Option Nat
  changed : Bool

def Scan.start : Scan := ⟨0,[],none,none,false⟩

/-- A round of the loop goes on, or the function returns. -/
inductive Round where
  | next (scan : Scan)
  | done (result : Option (List Char))

/-- A character and what it begins, between two rounds. -/
def methodsRound (tables : CharTables) (rewriteMethods : List Char → Option (Option (List Char))) (text : List Char)
    (s : Scan) : Option Round := do
  let rest ← sliceFrom text s.index
  let character ← rest.head?
  if (Quote.kind character).isSome then
    match ← stringEnd text s.index with
    | none => some (.done (rewritten s.changed (s.out ++ rest)))
    | some stop =>
      let literal ← slice text s.index stop
      some (.next ⟨stop,s.out ++ literal,some (size s.out),some stop,s.changed⟩)
  else if (closing character).isSome then
    match ← groupEnd text s.index with
    | none => some (.done (rewritten s.changed (s.out ++ rest)))
    | some stop =>
      let interior ← slice text (s.index + 1) (stop - 1)
      let inner ← rewriteMethods interior
      let last ← slice text (stop - 1) stop
      let group := character :: (inner.getD interior ++ last)
      let primaryStart := if s.primaryStop ≠ some s.index then some (size s.out) else s.primaryStart
      some (.next ⟨stop,s.out ++ group,primaryStart,some stop,s.changed || inner.isSome⟩)
  else if character = '.' ∧ s.primaryStop = some s.index then
    let nameEnd ← identifierEnd tables text (s.index + 1)
    let name ← slice text (s.index + 1) nameEnd
    let opened ← skipSpaces text nameEnd
    let opening ← sliceFrom text opened
    let called ←
      if nameEnd > s.index + 1 ∧ pythonMethods.contains (String.ofList name) ∧ opening.head? = some '(' then
        groupEnd text opened
      else some none
    match called with
    | some close =>
      let start ← s.primaryStart
      let kept ← slice s.out 0 start
      let receiver ← sliceFrom s.out start
      let interior ← slice text (opened + 1) (close - 1)
      let inner ← rewriteMethods interior
      some (.next ⟨close,kept ++ methodCall receiver name (inner.getD interior),some start,some close,true⟩)
    | none =>
      if nameEnd > s.index + 1 then some (.next ⟨nameEnd,s.out ++ '.' :: name,s.primaryStart,some nameEnd,s.changed⟩)
      else some (.next ⟨s.index + 1,s.out ++ ['.'],s.primaryStart,s.primaryStop,s.changed⟩)
  else if identifierChar tables character then
    let stop ← identifierEnd tables text s.index
    let name ← slice text s.index stop
    some (.next ⟨stop,s.out ++ name,some (size s.out),some stop,s.changed⟩)
  else some (.next ⟨s.index + character.utf8Size,s.out ++ [character],s.primaryStart,s.primaryStop,s.changed⟩)

/-- The loop of `rewrite_methods`, whose inner calls are on shorter texts. -/
def methodsLoop (tables : CharTables) : Nat → List Char → Scan → Option (Option (List Char))
  | 0,_,_ => none
  | fuel + 1,text,s =>
    if s.index < size text then
      (methodsRound tables (fun interior => methodsLoop tables fuel interior Scan.start) text s).bind fun round =>
        match round with
        | .done result => some result
        | .next s => methodsLoop tables fuel text s
    else some (rewritten s.changed s.out)

def rewriteMethods (tables : CharTables) (text : List Char) : Option (Option (List Char)) :=
  methodsLoop tables (text.length + 1) text Scan.start

def rewriteExpression (tables : CharTables) (source : List Char) : Option (Option (List Char)) := do
  let percent ← rewritePercent tables source
  let methods ← rewriteMethods tables (percent.getD source)
  some (methods.or percent)

end Source

section Percent

attribute [local simp] rewritePercentFrom

theorem rewritePercentFrom_nil (tables : CharTables) (fuel : Nat) (out : List Char) (changed : Bool) :
    rewritePercentFrom tables fuel out changed [] = rewritten changed out := by
  cases fuel <;> rfl

theorem pair_begins (first second : Char) (values : List Char) : [first,second] <+: first :: values ↔ values.head? = some second := by
  rw [List.cons_prefix_cons,and_iff_right rfl]
  cases values with
  | nil => simp
  | cons d values =>
    rw [List.cons_prefix_cons,List.head?_cons,Option.some_inj,and_iff_left List.nil_prefix]
    exact eq_comm

section Literal

variable {tables : CharTables} {fuel n : Nat} {out : List Char} {changed : Bool} {c : Char} {tail : List Char}

/-- What the pass over characters does at a string with an operator behind it. -/
theorem rewritePercentFrom_percent {values : List Char} (quote : ¬(Quote.kind c).isNone)
    (ends : Expression.stringEnd (c :: tail) = some n)
    (remaining : ((c :: tail).drop n).drop (Expression.skipSpaces ((c :: tail).drop n)) = '%' :: values) :
    rewritePercentFrom tables (fuel + 1) out changed (c :: tail) =
      if values.head? = some '%' ∨ values.head? = some '=' then
        rewritePercentFrom tables fuel (out ++ (c :: tail).take n) changed ((c :: tail).drop n)
      else match Expression.primaryEnd tables values with
        | none => rewritePercentFrom tables fuel (out ++ (c :: tail).take n) changed ((c :: tail).drop n)
        | some stop => rewritePercentFrom tables fuel
          (out ++ "__qdm_percent(".toList ++ (c :: tail).take n ++ ", ".toList ++ trim (values.take stop) ++ [')']) true
          (values.drop stop) := by
  rw [rewritePercentFrom,if_neg quote,ends]
  dsimp only
  rw [remaining]
  rfl

theorem rewritePercentFrom_copied (quote : ¬(Quote.kind c).isNone) (ends : Expression.stringEnd (c :: tail) = some n)
    (other : (((c :: tail).drop n).drop (Expression.skipSpaces ((c :: tail).drop n))).head? ≠ some '%') :
    rewritePercentFrom tables (fuel + 1) out changed (c :: tail) =
      rewritePercentFrom tables fuel (out ++ (c :: tail).take n) changed ((c :: tail).drop n) := by
  rw [rewritePercentFrom,if_neg quote,ends]
  dsimp only
  split
  · rename_i remaining
    rw [remaining] at other
    exact absurd rfl other
  · rfl

end Literal

/-- The loop writes what the pass over characters does. -/
theorem percentLoop_from (tables : CharTables) (base rest : List Char) (fuel more k : Nat) (out : List Char) (changed : Bool)
    (enough : (rest.drop k).length < fuel) (also : (rest.drop k).length ≤ more) :
    percentLoop tables (base ++ rest) fuel out changed (size (base ++ rest.take k)) =
      some (rewritePercentFrom tables more out changed (rest.drop k)) := by
  induction fuel generalizing more k out changed with
  | zero => omega
  | succ fuel ih =>
    rw [percentLoop]
    cases begins : rest.drop k with
    | nil =>
      have ended : base ++ rest.take k = base ++ rest := by
        rw [← cut_from base rest k,begins,List.append_nil]
      rw [ended,if_neg (Nat.lt_irrefl _),rewritePercentFrom_nil]
    | cons c tail =>
      rw [begins,List.length_cons] at enough also
      obtain ⟨more,rfl⟩ := Nat.exists_eq_add_of_lt (show 0 < more by omega)
      rw [Nat.zero_add] at also ⊢
      have ahead (n : Nat) : rest.drop (k + n) = (c :: tail).drop n := by rw [← List.drop_drop,begins]
      have next := drop_from rest k begins
      rw [if_pos (inside_from base rest k begins),sliceFrom_from,begins]
      simp only [Option.bind_eq_bind,Option.bind_some,List.head?_cons]
      by_cases plain : (Quote.kind c).isNone
      · rw [if_pos plain,size_from base rest k begins,ih more (k + 1) _ _ (by rw [next]; omega) (by rw [next]; omega),next,
          rewritePercentFrom,if_pos plain]
      · have quote : (Quote.kind c).isSome := Option.isSome_iff_ne_none.mpr fun is => plain (Option.isNone_iff_eq_none.mpr is)
        rw [if_neg plain,stringEnd_from base rest k begins quote,begins]
        cases ends : Expression.stringEnd (c :: tail) with
        | none =>
          rw [rewritePercentFrom,if_neg plain,ends]
          rfl
        | some n =>
          have positive := Quote.stringEnd_pos ends
          have less (m : Nat) (far : k + n ≤ m) : (rest.drop m).length ≤ tail.length := by
            obtain ⟨d,rfl⟩ := Nat.exists_eq_add_of_le far
            rw [Nat.add_assoc,ahead,List.length_drop,List.length_cons]
            omega
          have copied := ih more (k + n) (out ++ (c :: tail).take n) changed (by have := less (k + n) (Nat.le_refl _); omega)
            (by have := less (k + n) (Nat.le_refl _); omega)
          rw [ahead] at copied
          simp only [Option.map_some,Option.bind_some]
          rw [slice_from,begins,skipSpaces_from,ahead]
          simp only [Option.bind_some]
          rw [sliceFrom_from,← List.drop_drop,ahead]
          simp only [Option.bind_some]
          by_cases operator : (((c :: tail).drop n).drop (Expression.skipSpaces ((c :: tail).drop n))).head? = some '%'
          · obtain ⟨values,remaining⟩ := List.head?_eq_some_iff.mp operator
            have there : rest.drop (k + n + Expression.skipSpaces ((c :: tail).drop n)) = '%' :: values := by
              rw [← List.drop_drop,ahead,remaining]
            have behind := size_from base rest _ there
            have width : '%'.utf8Size = 1 := rfl
            rw [width] at behind
            rw [rewritePercentFrom_percent plain ends remaining,remaining,behind,primaryEnd_from,drop_from rest _ there]
            by_cases other : values.head? = some '%' ∨ values.head? = some '='
            · have shown : ('%' :: values).head? ≠ some '%' ∨ ['%','%'] <+: '%' :: values ∨ ['%','='] <+: '%' :: values :=
                .inr (other.imp (pair_begins _ _ _).mpr (pair_begins _ _ _).mpr)
              rw [if_pos shown,if_pos other]
              exact copied
            · have formats : ¬(('%' :: values).head? ≠ some '%' ∨ ['%','%'] <+: '%' :: values ∨ ['%','='] <+: '%' :: values) :=
                fun is => is.elim (absurd rfl) fun is => other (is.imp (pair_begins _ _ _).mp (pair_begins _ _ _).mp)
              rw [if_neg formats,if_neg other,Option.bind_some]
              cases stops : Expression.primaryEnd tables values with
              | none => exact copied
              | some m =>
                have shorter := less (k + n + Expression.skipSpaces ((c :: tail).drop n) + 1 + m) (by omega)
                rw [Option.map_some]
                dsimp only
                rw [slice_from,drop_from rest _ there,Option.bind_some,ih more _ _ _ (by omega) (by omega),
                  ← @List.drop_drop _ m,drop_from rest _ there]
          · rw [rewritePercentFrom_copied plain ends operator,if_pos (.inl operator)]
            exact copied

end Percent

section Steps

attribute [local simp] rewriteMethodsFrom

variable {tables : CharTables} {fuel : Nat} {out : List Char} {primary : Option (List Char)} {changed : Bool} {c : Char}
  {tail : List Char}

theorem rewriteMethodsFrom_nil : rewriteMethodsFrom tables fuel out primary changed [] = rewritten changed (out ++ primary.getD []) := by
  cases fuel with
  | zero =>
    rw [rewriteMethodsFrom,List.append_nil]
    rfl
  | succ fuel => rfl

/-- What the pass over characters does at a string. -/
theorem rewriteMethodsFrom_string (quote : (Quote.kind c).isSome) :
    rewriteMethodsFrom tables (fuel + 1) out primary changed (c :: tail) =
      match Expression.stringEnd (c :: tail) with
      | none => rewritten changed (out ++ primary.getD [] ++ c :: tail)
      | some n => rewriteMethodsFrom tables fuel (out ++ primary.getD []) (some ((c :: tail).take n)) changed ((c :: tail).drop n) := by
  rw [rewriteMethodsFrom.eq_def]
  dsimp only
  rw [if_pos quote]
  rfl

theorem rewriteMethodsFrom_group (plain : ¬(Quote.kind c).isSome) (bracket : c = '(' ∨ c = '[' ∨ c = '{') :
    rewriteMethodsFrom tables (fuel + 1) out primary changed (c :: tail) =
      match Expression.groupEnd (c :: tail) with
      | none => rewritten changed (out ++ primary.getD [] ++ c :: tail)
      | some n =>
        rewriteMethodsFrom tables fuel (if primary.isSome then out else out ++ primary.getD [])
          (some (primary.getD [] ++ c :: ((rewriteMethodsFrom tables fuel [] none false (tail.take (n - 2))).getD (tail.take (n - 2)) ++
            (tail.drop (n - 2)).take 1)))
          (changed || (rewriteMethodsFrom tables fuel [] none false (tail.take (n - 2))).isSome) ((c :: tail).drop n) := by
  rw [rewriteMethodsFrom.eq_def]
  dsimp only
  rw [if_neg plain,if_pos bracket]
  cases Expression.groupEnd (c :: tail) with
  | none => rfl
  | some n =>
    cases primary with
    | none => simp
    | some receiver => simp

/-- What stands behind the name of a method. -/
def opened (tables : CharTables) (tail : List Char) : List Char :=
  (tail.drop (Expression.identifierEnd tables tail)).drop (Expression.skipSpaces (tail.drop (Expression.identifierEnd tables tail)))

/-- Where the arguments end that stand behind the name of a method. -/
def called (tables : CharTables) (tail : List Char) : Option Nat :=
  if Expression.identifierEnd tables tail > 0 ∧
      pythonMethods.contains (String.ofList (tail.take (Expression.identifierEnd tables tail))) ∧
      (opened tables tail).head? = some '(' then Expression.groupEnd (opened tables tail)
  else none

theorem rewriteMethodsFrom_dot {receiver : List Char} :
    rewriteMethodsFrom tables (fuel + 1) out (some receiver) changed ('.' :: tail) =
      match called tables tail with
      | some close =>
        rewriteMethodsFrom tables fuel out
          (some (methodCall receiver (tail.take (Expression.identifierEnd tables tail))
            ((rewriteMethodsFrom tables fuel [] none false (((opened tables tail).take (close - 1)).drop 1)).getD
              (((opened tables tail).take (close - 1)).drop 1)))) true ((opened tables tail).drop close)
      | none =>
        if Expression.identifierEnd tables tail > 0 then
          rewriteMethodsFrom tables fuel out (some (receiver ++ '.' :: tail.take (Expression.identifierEnd tables tail))) changed
            (tail.drop (Expression.identifierEnd tables tail))
        else rewriteMethodsFrom tables fuel (out ++ receiver ++ ['.']) none changed tail := by
  have plain : ¬(Quote.kind '.').isSome := Bool.false_ne_true
  have single : ¬('.' = '(' ∨ '.' = '[' ∨ '.' = '{') := by decide
  rw [rewriteMethodsFrom.eq_def]
  dsimp only
  rw [if_neg plain,if_neg single]
  rfl

theorem rewriteMethodsFrom_plain (plain : ¬(Quote.kind c).isSome) (single : ¬(c = '(' ∨ c = '[' ∨ c = '{'))
    (apart : c = '.' → primary = none) :
    rewriteMethodsFrom tables (fuel + 1) out primary changed (c :: tail) =
      if identifierChar tables c then
        rewriteMethodsFrom tables fuel (out ++ primary.getD []) (some ((c :: tail).take (Expression.identifierEnd tables (c :: tail))))
          changed ((c :: tail).drop (Expression.identifierEnd tables (c :: tail)))
      else rewriteMethodsFrom tables fuel (out ++ primary.getD [] ++ [c]) none changed tail := by
  rw [rewriteMethodsFrom.eq_def]
  dsimp only
  rw [if_neg plain,if_neg single]
  split
  · cases apart rfl
  · rfl

end Steps

section Rounds

/-- The variables stand for the state of the pass over characters: the primary that ends
at the index begins where the text before it ends. -/
structure Stands (front out : List Char) (primary : Option (List Char)) (s : Scan) : Prop where
  index : s.index = size front
  written : s.out = out ++ primary.getD []
  behind : ∀ stop ∈ s.primaryStop, stop ≤ s.index
  ends : s.primaryStop = some s.index ↔ primary.isSome
  begins : primary.isSome → s.primaryStart = some (size out)

theorem stands_start : Stands [] [] none Scan.start := ⟨rfl,rfl,nofun,⟨nofun,nofun⟩,nofun⟩

theorem stands_primary (front out receiver : List Char) (changed : Bool) :
    Stands front out (some receiver) ⟨size front,out ++ receiver,some (size out),some (size front),changed⟩ where
  index := rfl
  written := rfl
  behind := fun _ same => Nat.le_of_eq (Option.some.inj same).symm
  ends := ⟨fun _ => rfl,fun _ => rfl⟩
  begins := fun _ => rfl

/-- A primary is not followed up behind another character. -/
theorem Stands.passed {front out : List Char} {primary : Option (List Char)} {s : Scan} (stands : Stands front out primary s)
    (c : Char) : Stands (front ++ [c]) (out ++ primary.getD [] ++ [c]) none
      ⟨size (front ++ [c]),s.out ++ [c],s.primaryStart,s.primaryStop,s.changed⟩ where
  index := rfl
  written := by rw [stands.written,Option.getD_none,List.append_nil]
  behind := by
    intro stop member
    have less := stands.behind stop member
    rw [stands.index] at less
    exact Nat.le_trans less (by rw [← size_snoc]; exact Nat.le_add_right _ _)
  ends := by
    refine ⟨fun same => ?_,nofun⟩
    have less := stands.behind _ same
    have positive := c.utf8Size_pos
    have far : size (front ++ [c]) ≤ s.index := less
    rw [stands.index,← size_snoc] at far
    omega
  begins := nofun

/-- What a round leads to, where the pass over characters has a result. -/
def Agrees (tables : CharTables) (fuel bound : Nat) (text : List Char) (result : Option (List Char)) : Round → Prop
  | .done returned => returned = result
  | .next s => ∃ front rest out primary, text = front ++ rest ∧ rest.length ≤ bound ∧ Stands front out primary s ∧
      rewriteMethodsFrom tables fuel out primary s.changed rest = result

section Cases

attribute [local simp] methodsRound

variable {tables : CharTables} {fuel : Nat} {front out : List Char} {primary : Option (List Char)} {s : Scan} {c : Char}
  {tail : List Char} {inner : List Char → Option (Option (List Char))}

/-- The round ends, as the pass over characters goes on. -/
def Follows (tables : CharTables) (fuel : Nat) (inner : List Char → Option (Option (List Char))) (front out : List Char)
    (primary : Option (List Char)) (s : Scan) (c : Char) (tail : List Char) : Prop :=
  ∃ round, methodsRound tables inner (front ++ c :: tail) s = some round ∧
    Agrees tables fuel tail.length (front ++ c :: tail) (rewriteMethodsFrom tables (fuel + 1) out primary s.changed (c :: tail)) round

theorem drop_shorter {n : Nat} (positive : 0 < n) : ((c :: tail).drop n).length ≤ tail.length := by
  rw [List.length_drop,List.length_cons]
  omega

theorem slice_taken (front rest : List Char) (n : Nat) :
    slice (front ++ rest) (size front) (size (front ++ rest.take n)) = some (rest.take n) := by
  rw [← cut_from front rest n,slice_size]

theorem string_follows (stands : Stands front out primary s) (quote : (Quote.kind c).isSome) :
    Follows tables fuel inner front out primary s c tail := by
  unfold Follows methodsRound
  rw [stands.index,sliceFrom_size,rewriteMethodsFrom_string quote]
  simp only [Option.bind_eq_bind,Option.bind_some,List.head?_cons]
  rw [if_pos quote,stringEnd_size quote]
  cases ends : Expression.stringEnd (c :: tail) with
  | none => exact ⟨_,rfl,by rw [stands.written]; rfl⟩
  | some n =>
    rw [Option.map_some,Option.bind_some]
    dsimp only
    rw [slice_taken]
    refine ⟨_,rfl,front ++ (c :: tail).take n,(c :: tail).drop n,out ++ primary.getD [],some ((c :: tail).take n),(cut_from _ _ _).symm,
      drop_shorter (Quote.stringEnd_pos ends),?_,rfl⟩
    rw [stands.written]
    exact stands_primary _ _ _ _

theorem group_follows (stands : Stands front out primary s) (plain : ¬(Quote.kind c).isSome) (bracket : (closing c).isSome)
    (rewrites : ∀ interior, interior.length ≤ tail.length →
      inner interior = some (rewriteMethodsFrom tables fuel [] none false interior)) :
    Follows tables fuel inner front out primary s c tail := by
  unfold Follows methodsRound
  rw [stands.index,sliceFrom_size,rewriteMethodsFrom_group plain ((closing_isSome c).mp bracket)]
  simp only [Option.bind_eq_bind,Option.bind_some,List.head?_cons]
  rw [if_neg plain,if_pos bracket,groupEnd_size]
  cases ends : Expression.groupEnd (c :: tail) with
  | none => exact ⟨_,rfl,by rw [stands.written]; rfl⟩
  | some n =>
    have slices := slice_interior ends front
    rw [Option.map_some,Option.bind_some]
    dsimp only
    rw [slices.1,Option.bind_some,rewrites _ (List.length_take_le' _ _),Option.bind_some,slices.2,Option.bind_some]
    refine ⟨_,rfl,front ++ (c :: tail).take n,(c :: tail).drop n,_,_,(cut_from _ _ _).symm,drop_shorter (groupEnd_pos ends),?_,rfl⟩
    rw [stands.written]
    cases primary with
    | none =>
      have apart : s.primaryStop ≠ some (size front) := fun same => by
        rw [← stands.index] at same
        cases stands.ends.mp same
      rw [if_pos apart]
      exact stands_primary _ _ _ _
    | some receiver =>
      have same : ¬ s.primaryStop ≠ some (size front) := by
        rw [← stands.index,stands.ends.mpr rfl]
        exact absurd rfl
      have primaries := stands_primary (front ++ (c :: tail).take n) out (receiver ++
        c :: ((rewriteMethodsFrom tables fuel [] none false (tail.take (n - 2))).getD (tail.take (n - 2)) ++
          (tail.drop (n - 2)).take 1)) (s.changed || (rewriteMethodsFrom tables fuel [] none false (tail.take (n - 2))).isSome)
      rw [if_neg same,stands.begins rfl,Option.getD_some,List.append_assoc]
      exact primaries

theorem name_follows (stands : Stands front out primary s) (plain : ¬(Quote.kind c).isSome) (single : ¬(closing c).isSome)
    (apart : c = '.' → primary = none) : Follows tables fuel inner front out primary s c tail := by
  have undotted : ¬(c = '.' ∧ s.primaryStop = some (size front)) := by
    rintro ⟨dot,same⟩
    rw [← stands.index] at same
    have some := stands.ends.mp same
    rw [apart dot] at some
    cases some
  unfold Follows methodsRound
  rw [stands.index,sliceFrom_size,rewriteMethodsFrom_plain plain (fun is => single ((closing_isSome c).mpr is)) apart]
  simp only [Option.bind_eq_bind,Option.bind_some,List.head?_cons]
  rw [if_neg plain,if_neg single,if_neg undotted]
  by_cases named : identifierChar tables c = true
  · have positive : 0 < Expression.identifierEnd tables (c :: tail) := by
      rw [Expression.identifierEnd,List.takeWhile_cons_of_pos named]
      exact Nat.succ_pos _
    rw [if_pos named,if_pos named,identifierEnd_size,Option.bind_some,slice_taken,Option.bind_some]
    refine ⟨_,rfl,front ++ (c :: tail).take (Expression.identifierEnd tables (c :: tail)),_,_,_,(cut_from _ _ _).symm,drop_shorter positive,?_,rfl⟩
    rw [stands.written]
    exact stands_primary _ _ _ _
  · rw [if_neg named,if_neg named]
    refine ⟨_,rfl,front ++ [c],tail,_,none,by simp,Nat.le_refl _,?_,rfl⟩
    rw [size_snoc]
    exact stands.passed c

theorem take_pred {d : Char} {text : List Char} {m : Nat} (enough : 2 ≤ m) : ((d :: text).take (m - 1)).drop 1 = text.take (m - 2) := by
  obtain ⟨n,rfl⟩ := Nat.exists_eq_add_of_le enough
  rw [show 2 + n - 1 = n + 1 from by omega,show 2 + n - 2 = n from by omega]
  rfl

/-- A method call behind a primary takes its place. -/
theorem call_follows {receiver : List Char} (stands : Stands front out (some receiver) s)
    (rewrites : ∀ interior, interior.length ≤ tail.length →
      inner interior = some (rewriteMethodsFrom tables fuel [] none false interior)) :
    Follows tables fuel inner front out (some receiver) s '.' tail := by
  have here : s.primaryStop = some (size front) := by rw [← stands.index,stands.ends.mpr rfl]
  have dotted : True ∧ s.primaryStop = some (size front) := ⟨trivial,here⟩
  have plain : ¬(Quote.kind '.').isSome := Bool.false_ne_true
  have single : ¬(closing '.').isSome := Bool.false_ne_true
  have width : size front + 1 = size (front ++ ['.']) := size_snoc front '.'
  have moved : front ++ '.' :: tail = front ++ ['.'] ++ tail := by simp
  have longer : size (front ++ ['.'] ++ tail.take (Expression.identifierEnd tables tail)) > size (front ++ ['.']) ↔
      Expression.identifierEnd tables tail > 0 := by
    rw [size_append _ (tail.take _),gt_iff_lt,Nat.lt_add_right_iff_pos,size_pos,ne_eq,identifierEnd_eq_zero]
    exact ⟨Nat.pos_of_ne_zero,Nat.ne_of_gt⟩
  have named : ∃ round, (if size (front ++ ['.'] ++ tail.take (Expression.identifierEnd tables tail)) > size (front ++ ['.']) then
        some (Round.next ⟨size (front ++ ['.'] ++ tail.take (Expression.identifierEnd tables tail)),
          s.out ++ '.' :: tail.take (Expression.identifierEnd tables tail),s.primaryStart,
          some (size (front ++ ['.'] ++ tail.take (Expression.identifierEnd tables tail))),s.changed⟩)
      else some (Round.next ⟨size (front ++ ['.']),s.out ++ ['.'],s.primaryStart,s.primaryStop,s.changed⟩)) = some round ∧
      Agrees tables fuel tail.length (front ++ ['.'] ++ tail)
        (if Expression.identifierEnd tables tail > 0 then
          rewriteMethodsFrom tables fuel out (some (receiver ++ '.' :: tail.take (Expression.identifierEnd tables tail))) s.changed
            (tail.drop (Expression.identifierEnd tables tail))
        else rewriteMethodsFrom tables fuel (out ++ receiver ++ ['.']) none s.changed tail) round := by
    by_cases some : Expression.identifierEnd tables tail > 0
    · rw [if_pos (longer.mpr some),if_pos some]
      refine ⟨_,rfl,_,_,_,_,(cut_from (front ++ ['.']) tail (Expression.identifierEnd tables tail)).symm,?_,?_,rfl⟩
      · rw [List.length_drop]
        exact Nat.sub_le _ _
      · rw [stands.written,stands.begins rfl,Option.getD_some,List.append_assoc out]
        exact stands_primary _ _ _ _
    · rw [if_neg fun is => some (longer.mp is),if_neg some]
      exact ⟨_,rfl,front ++ ['.'],tail,_,none,rfl,Nat.le_refl _,stands.passed '.',rfl⟩
  unfold Follows methodsRound
  rw [stands.index,sliceFrom_size,rewriteMethodsFrom_dot]
  simp only [Option.bind_eq_bind,Option.bind_some,List.head?_cons]
  rw [if_neg plain,if_neg single,if_pos dotted,width,moved,identifierEnd_size,Option.bind_some,slice_taken,Option.bind_some,
    skipSpaces_from,Option.bind_some,sliceFrom_from,Option.bind_some,← List.drop_drop]
  by_cases whole : Expression.identifierEnd tables tail > 0 ∧
      pythonMethods.contains (String.ofList (tail.take (Expression.identifierEnd tables tail))) ∧
      (opened tables tail).head? = some '('
  · have calls : called tables tail = Expression.groupEnd (opened tables tail) := if_pos whole
    have there : tail.drop (Expression.identifierEnd tables tail + Expression.skipSpaces (tail.drop (Expression.identifierEnd tables tail))) =
        opened tables tail := List.drop_drop.symm
    rw [if_pos ⟨longer.mpr whole.1,whole.2⟩,groupEnd_from,there,calls]
    cases ends : Expression.groupEnd (opened tables tail) with
    | none => exact named
    | some close =>
      obtain ⟨args,begins⟩ := List.head?_eq_some_iff.mp whole.2.2
      rw [begins] at there ends
      have slices := slice_interior ends (front ++ ['.'] ++ tail.take
        (Expression.identifierEnd tables tail + Expression.skipSpaces (tail.drop (Expression.identifierEnd tables tail))))
      rw [← there,cut_from,take_from] at slices
      have least : 2 ≤ close := by
        obtain ⟨_,_,_,_,is,_⟩ := groupEnd_interior ends
        omega
      have shorter : (args.take (close - 2)).length ≤ tail.length := by
        have cut := congrArg List.length there
        rw [List.length_drop,List.length_cons] at cut
        exact Nat.le_trans (List.length_take_le' _ _) (by omega)
      have after : ('(' :: args).drop close = tail.drop
          (Expression.identifierEnd tables tail + Expression.skipSpaces (tail.drop (Expression.identifierEnd tables tail)) + close) := by
        rw [← List.drop_drop,there]
      rw [Option.map_some,Option.bind_some,begins]
      dsimp only
      rw [take_pred least,after,stands.begins rfl,Option.bind_some,stands.written,Option.getD_some,slice_start,Option.bind_some,sliceFrom_size,
        Option.bind_some,slices.1,Option.bind_some,rewrites _ shorter,Option.bind_some]
      refine ⟨_,rfl,_,_,_,_,(cut_from (front ++ ['.']) tail _).symm,?_,stands_primary _ _ _ _,rfl⟩
      rw [List.length_drop]
      exact Nat.sub_le _ _
  · have calls : called tables tail = none := if_neg whole
    rw [if_neg fun is => whole ⟨longer.mp is.1,is.2⟩,calls]
    exact named

/-- Every round follows the pass over characters. -/
theorem round_follows (stands : Stands front out primary s)
    (rewrites : ∀ interior, interior.length ≤ tail.length →
      inner interior = some (rewriteMethodsFrom tables fuel [] none false interior)) :
    Follows tables fuel inner front out primary s c tail := by
  by_cases quote : (Quote.kind c).isSome
  · exact string_follows stands quote
  · by_cases bracket : (closing c).isSome
    · exact group_follows stands quote bracket rewrites
    · cases primary with
      | none => exact name_follows stands quote bracket fun _ => rfl
      | some receiver =>
        by_cases dot : c = '.'
        · subst dot
          exact call_follows stands rewrites
        · exact name_follows stands quote bracket fun is => absurd is dot

end Cases

/-- The loop writes what the pass over characters does. -/
theorem methodsLoop_eq (tables : CharTables) (fuel more : Nat) {text front rest out : List Char} {primary : Option (List Char)}
    {s : Scan} (cut : text = front ++ rest) (stands : Stands front out primary s) (enough : rest.length < fuel)
    (also : rest.length ≤ more) :
    methodsLoop tables fuel text s = some (rewriteMethodsFrom tables more out primary s.changed rest) := by
  induction fuel generalizing more text front rest out primary s with
  | zero => omega
  | succ fuel ih =>
    subst cut
    rw [methodsLoop]
    cases rest with
    | nil =>
      rw [List.append_nil,stands.index,if_neg (Nat.lt_irrefl _),rewriteMethodsFrom_nil,stands.written]
    | cons c tail =>
      rw [List.length_cons] at enough also
      obtain ⟨more,rfl⟩ := Nat.exists_eq_add_of_lt (show 0 < more by omega)
      rw [Nat.zero_add] at also ⊢
      have inside : s.index < size (front ++ c :: tail) := by
        have positive := c.utf8Size_pos
        rw [stands.index,size_append,size_cons]
        omega
      obtain ⟨round,is,agrees⟩ := @round_follows tables more front out primary s c tail
        (fun interior => methodsLoop tables fuel interior Scan.start) stands
        fun interior less => ih more rfl stands_start (by omega) (by omega)
      rw [if_pos inside,is,Option.bind_some]
      cases round with
      | done returned => exact congrArg some agrees
      | next s =>
        obtain ⟨front,rest,out,primary,cut,less,stands,same⟩ := agrees
        rw [← same]
        exact ih more cut stands (by omega) (by omega)

theorem rewriteMethods_eq (tables : CharTables) (text : List Char) :
    rewriteMethods tables text = some (Expression.rewriteMethods tables text) :=
  methodsLoop_eq tables _ _ rfl stands_start (Nat.lt_succ_self _) (Nat.le_refl _)

theorem rewritePercent_eq (tables : CharTables) (text : List Char) :
    rewritePercent tables text = some (Expression.rewritePercent tables text) :=
  percentLoop_from tables [] text _ _ 0 [] false (Nat.lt_succ_self _) (Nat.le_refl _)

theorem rewriteExpression_eq (tables : CharTables) (source : List Char) :
    rewriteExpression tables source = some (Expression.rewriteExpression tables source) := by
  unfold rewriteExpression
  rw [rewritePercent_eq]
  simp only [Option.bind_eq_bind,Option.bind_some]
  rw [rewriteMethods_eq]
  rfl

end Rounds

section Places

/-- From every place between two characters a scan comes to an end: at no place, or at one
between two characters that is not before it. -/
def Scans (scan : List Char → Nat → Option (Option Nat)) : Prop :=
  ∀ text start, Between text start → ∃ result, scan text start = some result ∧
    ∀ stop ∈ result, start ≤ stop ∧ stop ≤ size text ∧ Between text stop

theorem scans_of {scan : List Char → Nat → Option (Option Nat)}
    (ends : ∀ front rest, ∃ n : Option Nat, scan (front ++ rest) (size front) = some (n.map fun n => size (front ++ rest.take n))) :
    Scans scan := by
  rintro _ _ ⟨front,rest,rfl,rfl⟩
  obtain ⟨n,is⟩ := ends front rest
  refine ⟨_,is,?_⟩
  intro stop member
  obtain ⟨n,-,rfl⟩ := Option.map_eq_some_iff.mp member
  refine ⟨?_,?_,between_take front rest n⟩
  · rw [size_append]
    exact Nat.le_add_right _ _
  · rw [← cut_from front rest n,size_append (front ++ rest.take n)]
    exact Nat.le_add_right _ _

theorem stringEnd_scans : Scans stringEnd := by
  apply scans_of
  intro front rest
  rw [stringEnd,sliceFrom_size,Option.bind_some]
  cases rest with
  | nil => exact ⟨none,rfl⟩
  | cons quote tail =>
    have moved : front ++ quote :: tail = front ++ [quote] ++ tail := by simp
    dsimp only
    rw [size_snoc,moved,sliceFrom_size,Option.map_some]
    cases closed : closeString quote (size (front ++ [quote])) false tail with
    | none => exact ⟨none,rfl⟩
    | some stop =>
      obtain ⟨n,rfl⟩ := closeString_take closed
      refine ⟨some (n + 1),?_⟩
      rw [Option.map_some,List.take_succ_cons,← size_append,List.append_assoc]
      rfl

/-- The scans of a run of the loop of `rewrite_methods`. -/
inductive Reaches (tables : CharTables) (text : List Char) : Scan → Prop where
  | start : Reaches tables text Scan.start
  | next {s s' : Scan} (reached : Reaches tables text s) (inside : s.index < size text)
      (round : methodsRound tables (rewriteMethods tables) text s = some (.next s')) : Reaches tables text s'

/-- A primary ends at the index or before it, and one that ends there begins at a place of the text that is out. -/
structure Spanned (text : List Char) (s : Scan) : Prop where
  index : Between text s.index
  stops : ∀ stop ∈ s.primaryStop, stop ≤ s.index
  starts : s.primaryStop = some s.index → ∃ start, s.primaryStart = some start ∧ start ≤ size s.out ∧ Between s.out start

theorem Stands.spanned {front rest out : List Char} {primary : Option (List Char)} {s : Scan} (stands : Stands front out primary s) :
    Spanned (front ++ rest) s where
  index := by
    rw [stands.index]
    exact between_size front rest
  stops := stands.behind
  starts := by
    intro same
    refine ⟨size out,stands.begins (stands.ends.mp same),?_,?_⟩
    · rw [stands.written,size_append]
      exact Nat.le_add_right _ _
    · rw [stands.written]
      exact between_size _ _

theorem reaches_stands {tables : CharTables} {text : List Char} {s : Scan} (reached : Reaches tables text s) :
    ∃ front rest out primary, text = front ++ rest ∧ Stands front out primary s := by
  induction reached with
  | start => exact ⟨[],text,[],none,rfl,stands_start⟩
  | next reached inside round ih =>
    obtain ⟨front,rest,out,primary,rfl,stands⟩ := ih
    cases rest with
    | nil =>
      rw [List.append_nil,stands.index] at inside
      exact absurd inside (Nat.lt_irrefl _)
    | cons c tail =>
      obtain ⟨other,is,agrees⟩ := @round_follows tables tail.length front out primary _ c tail (rewriteMethods tables) stands
        fun interior less => methodsLoop_eq tables _ _ rfl stands_start (Nat.lt_succ_self _) less
      rw [round] at is
      cases is
      obtain ⟨front,rest,out,primary,cut,-,stands,-⟩ := agrees
      exact ⟨front,rest,out,primary,cut,stands⟩

end Places

/-- Every scan and both passes come to an end on every text, with no slice outside of it or inside a character. -/
theorem rewriting_ends (tables : CharTables) :
    Scans (fun text start => (skipSpaces text start).map some) ∧
    Scans (fun text start => (identifierEnd tables text start).map some) ∧
    Scans stringEnd ∧ Scans groupEnd ∧ Scans (primaryEnd tables) ∧
    (∀ text s, Reaches tables text s → Spanned text s) ∧
    (∀ text, rewritePercent tables text = some (Expression.rewritePercent tables text)) ∧
    (∀ text, rewriteMethods tables text = some (Expression.rewriteMethods tables text)) ∧
    ∀ source, rewriteExpression tables source = some (Expression.rewriteExpression tables source) := by
  refine ⟨?_,?_,stringEnd_scans,?_,?_,?_,rewritePercent_eq tables,rewriteMethods_eq tables,rewriteExpression_eq tables⟩
  · exact scans_of fun front rest => ⟨some (Expression.skipSpaces rest),by rw [skipSpaces_size]; rfl⟩
  · exact scans_of fun front rest => ⟨some (Expression.identifierEnd tables rest),by rw [identifierEnd_size]; rfl⟩
  · exact scans_of fun front rest => ⟨_,groupEnd_size front rest⟩
  · exact scans_of fun front rest => ⟨_,primaryEnd_size tables front rest⟩
  · intro text s reached
    obtain ⟨front,rest,out,primary,rfl,stands⟩ := reaches_stands reached
    exact stands.spanned

end Qdrust.Expression.Spans
