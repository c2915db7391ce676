import Mathlib.Data.List.Chain
import Qdrust.Library.Digits
import Qdrust.Library.Text

/-! Which version of a catalogue entry is newer than the one that is installed. -/
namespace Qdrust.Subscriptions.Versions
open Library Digits

/-- `str::parse::<u64>`. -/
def parseU64 (text : List Char) : Option Nat :=
  let digits := if text.head? = some '+' then text.tail else text
  if digits ≠ [] ∧ digits.all Char.isDigit ∧ natValue digits < 2 ^ 64 then some (natValue digits) else none

def trim (version : String) : List Char := Text.trimList Text.whiteSpace version.toList

def versionIsNewer : Option String → Option String → Bool
  | some upstream,some installed =>
    if trim upstream = [] ∨ trim installed = [] then false
    else
      match parseU64 (trim upstream),parseU64 (trim installed) with
      | some upstream,some installed => decide (installed < upstream)
      | _,_ => decide (trim installed < trim upstream)
  | _,_ => false

/-- The texts of two versions compare as their numbers do. -/
def Alike (left right : String) : Prop :=
  ∀ m n, parseU64 (trim left) = some m → parseU64 (trim right) = some n → (m < n ↔ trim left < trim right)

/-- All versions are numbers, or every two that are compare as texts, too. -/
def Comparable (versions : List String) : Prop :=
  (∀ version ∈ versions, (parseU64 (trim version)).isSome = true) ∨ ∀ left ∈ versions, ∀ right ∈ versions, Alike left right

theorem parse_some {text : List Char} {n : Nat} (is : parseU64 text = some n) : text ≠ [] := by
  rintro rfl
  cases is

theorem newer_numbers {left right : String} {m n : Nat} (first : parseU64 (trim left) = some m)
    (second : parseU64 (trim right) = some n) : versionIsNewer (some right) (some left) = true ↔ m < n := by
  rw [versionIsNewer,if_neg (not_or.mpr ⟨parse_some second,parse_some first⟩),first,second]
  exact decide_eq_true_iff

theorem newer_texts {left right : String} (other : parseU64 (trim left) = none ∨ parseU64 (trim right) = none) :
    versionIsNewer (some right) (some left) = true ↔ trim left ≠ [] ∧ trim right ≠ [] ∧ trim left < trim right := by
  rw [versionIsNewer]
  by_cases blank : trim right = [] ∨ trim left = []
  · rw [if_pos blank]
    constructor
    · exact fun same => nomatch same
    · rintro ⟨first,second,_⟩
      exact absurd blank (not_or.mpr ⟨second,first⟩)
  · obtain ⟨second,first⟩ := not_or.mp blank
    rw [if_neg blank]
    split
    · next m n upstream installed =>
      rcases other with none | none
      · rw [none] at installed
        cases installed
      · rw [none] at upstream
        cases upstream
    · rw [decide_eq_true_iff]
      exact ⟨fun less => ⟨first,second,less⟩,fun both => both.2.2⟩

theorem newer_cases (left right : String) :
    (∃ m n, parseU64 (trim left) = some m ∧ parseU64 (trim right) = some n) ∨
      (parseU64 (trim left) = none ∨ parseU64 (trim right) = none) := by
  cases parseU64 (trim left) with
  | none => exact Or.inr (Or.inl rfl)
  | some m =>
    cases parseU64 (trim right) with
    | none => exact Or.inr (Or.inr rfl)
    | some n => exact Or.inl ⟨m,n,rfl,rfl⟩

/-- Versions that compare alike are ordered by their texts. -/
theorem newer_alike {left right : String} (alike : Alike left right) (newer : versionIsNewer (some right) (some left) = true) :
    trim left < trim right := by
  rcases newer_cases left right with ⟨m,n,first,second⟩ | other
  · exact (alike m n first second).mp ((newer_numbers first second).mp newer)
  · exact ((newer_texts other).mp newer).2.2

theorem newer_some {upstream installed : Option String} (newer : versionIsNewer upstream installed = true) :
    ∃ left right, installed = some left ∧ upstream = some right := by
  cases upstream with
  | none => cases newer
  | some right =>
    cases installed with
    | none => cases newer
    | some left => exact ⟨left,right,rfl,rfl⟩

theorem newer_asymm {upstream installed : Option String} (newer : versionIsNewer upstream installed = true) :
    versionIsNewer installed upstream = false := by
  obtain ⟨left,right,rfl,rfl⟩ := newer_some newer
  refine Bool.eq_false_iff.mpr fun back => ?_
  rcases newer_cases left right with ⟨m,n,first,second⟩ | other
  · exact Nat.lt_asymm ((newer_numbers first second).mp newer) ((newer_numbers second first).mp back)
  · exact List.lt_asymm ((newer_texts other).mp newer).2.2 ((newer_texts other.symm).mp back).2.2

section Chains

variable {versions : List String}

/-- An order that every two of the versions are newer by. -/
theorem pairwise_of_order {R : String → String → Prop} (trans : ∀ a b c, R a b → R b c → R a c)
    (order : ∀ left ∈ versions, ∀ right ∈ versions, (versionIsNewer (some right) (some left) = true ↔ R left right))
    (chain : versions.IsChain fun installed upstream => versionIsNewer (some upstream) (some installed) = true) :
    versions.Pairwise fun installed upstream => versionIsNewer (some upstream) (some installed) = true := by
  have ordered : versions.IsChain R := chain.imp_of_mem_imp fun left right first second => (order left first right second).mp
  have transitive : IsTrans String R := ⟨trans⟩
  exact (List.isChain_iff_pairwise.mp ordered).imp_of_mem fun first second => (order _ first _ second).mpr

def number (version : String) : Nat := (parseU64 (trim version)).getD 0

theorem numbers_pairwise (all : ∀ version ∈ versions, (parseU64 (trim version)).isSome = true)
    (chain : versions.IsChain fun installed upstream => versionIsNewer (some upstream) (some installed) = true) :
    versions.Pairwise fun installed upstream => versionIsNewer (some upstream) (some installed) = true := by
  refine pairwise_of_order (fun a b c => @Nat.lt_trans (number a) (number b) (number c)) ?_ chain
  intro left first right second
  obtain ⟨m,left'⟩ := Option.isSome_iff_exists.mp (all left first)
  obtain ⟨n,right'⟩ := Option.isSome_iff_exists.mp (all right second)
  rw [newer_numbers left' right',number,number,left',right']
  rfl

theorem texts_pairwise (alike : ∀ left ∈ versions, ∀ right ∈ versions, Alike left right)
    (chain : versions.IsChain fun installed upstream => versionIsNewer (some upstream) (some installed) = true) :
    versions.Pairwise fun installed upstream => versionIsNewer (some upstream) (some installed) = true := by
  refine @pairwise_of_order _ (fun left right => trim left ≠ [] ∧ trim right ≠ [] ∧ trim left < trim right)
    (fun a b c first second => ⟨first.1,second.2.1,List.lt_trans first.2.2 second.2.2⟩) ?_ chain
  intro left first right second
  rcases newer_cases left right with ⟨m,n,left',right'⟩ | other
  · rw [newer_numbers left' right',alike left first right second m n left' right']
    exact ⟨fun less => ⟨parse_some left',parse_some right',less⟩,fun both => both.2.2⟩
  · exact newer_texts other

end Chains

/-- The order of the versions is irreflexive and asymmetric. A sequence of updates that are all numbers, or of which every two numbers
compare as texts, too, goes on to newer versions only. -/
theorem version_is_newer_order :
    (∀ version, versionIsNewer version version = false) ∧
    (∀ upstream installed, versionIsNewer upstream installed = true → versionIsNewer installed upstream = false) ∧
    ∀ versions, Comparable versions →
      versions.IsChain (fun installed upstream => versionIsNewer (some upstream) (some installed) = true) →
      versions.Pairwise fun installed upstream => versionIsNewer (some upstream) (some installed) = true := by
  refine ⟨fun version => ?_,fun upstream installed => newer_asymm,fun versions comparable chain => ?_⟩
  · refine Bool.eq_false_iff.mpr fun newer => ?_
    have older := newer_asymm newer
    rw [newer] at older
    cases older
  · rcases comparable with all | alike
    · exact numbers_pairwise all chain
    · exact texts_pairwise alike chain

theorem dates_pairwise :
    (["20240131","20240201","20250101"] : List String).Pairwise fun installed upstream =>
      versionIsNewer (some upstream) (some installed) = true :=
  version_is_newer_order.2.2 _ (Or.inl (by decide +kernel)) (by decide +kernel)

/-- `10` is newer than `9`, `9` than `1x`, and `1x` than `10`. -/
theorem newer_cycle :
    ¬ ∀ a b c, versionIsNewer (some a) (some b) = true → versionIsNewer (some b) (some c) = true →
      versionIsNewer (some a) (some c) = true := by
  intro transitive
  exact absurd (transitive "10" "9" "1x" (by decide +kernel) (by decide +kernel)) (by decide +kernel)

end Qdrust.Subscriptions.Versions
