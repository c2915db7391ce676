import Qdrust.Library.Text

/-! The places at which a text stands in another one, and what a search from the left finds. -/
namespace Qdrust.Library.Search

/-- The needle stands at a place of a text. -/
def At (needle text : List Char) (i : Nat) : Prop := i + needle.length ≤ text.length ∧ needle <+: text.drop i

theorem at_cons {needle text : List Char} {c : Char} {i : Nat} : At needle (c :: text) (i + 1) ↔ At needle text i := by
  rw [At,At,List.length_cons,List.drop_succ_cons]
  exact and_congr (by omega) Iff.rfl

theorem splitList_at {needle text front back : List Char} (found : Text.splitList needle text = some (front,back)) :
    text = front ++ (needle ++ back) ∧ ∀ j, At needle text j → front.length ≤ j := by
  induction text generalizing front with
  | nil =>
    rw [Text.splitList,Option.ite_none_right_eq_some] at found
    obtain ⟨empty,same⟩ := found
    cases same
    rw [List.isEmpty_iff.mp empty]
    exact ⟨rfl,fun j _ => Nat.zero_le j⟩
  | cons c text ih =>
    rw [Text.splitList] at found
    split at found
    · next rest starts =>
      cases found
      exact ⟨(List.isPrefixOf?_eq_some_iff_append_eq.mp starts).symm,fun j _ => Nat.zero_le j⟩
    · next other =>
      obtain ⟨⟨front',back'⟩,later,same⟩ := Option.map_eq_some_iff.mp found
      cases same
      obtain ⟨whole,least⟩ := ih later
      refine ⟨by rw [List.cons_append,← whole],fun j there => ?_⟩
      cases j with
      | zero =>
        obtain ⟨rest,starts⟩ := there.2
        rw [List.drop_zero] at starts
        rw [List.isPrefixOf?_eq_some_iff_append_eq.mpr starts] at other
        cases other
      | succ j => exact Nat.succ_le_succ (least j (at_cons.mp there))

theorem splitList_nowhere {needle text : List Char} (missing : Text.splitList needle text = none) (j : Nat) : ¬At needle text j := by
  induction text generalizing j with
  | nil =>
    rintro ⟨short,_⟩
    rw [List.length_nil] at short
    have empty : needle = [] := List.eq_nil_of_length_eq_zero (by omega)
    subst empty
    cases missing
  | cons c text ih =>
    rw [Text.splitList] at missing
    split at missing
    · cases missing
    · next other =>
      rw [Option.map_eq_none_iff] at missing
      cases j with
      | zero =>
        rintro ⟨_,rest,starts⟩
        rw [List.drop_zero] at starts
        rw [List.isPrefixOf?_eq_some_iff_append_eq.mpr starts] at other
        cases other
      | succ j => exact fun there => ih missing j (at_cons.mp there)

/-- A place in the text and the place from the end of it. -/
theorem at_reverse {needle text : List Char} {i : Nat} (there : At needle text i) :
    At needle.reverse text.reverse (text.length - i - needle.length) := by
  obtain ⟨short,rest,starts⟩ := there
  have whole : text = text.take i ++ (needle ++ rest) := by rw [starts,List.take_append_drop]
  have length : text.length = i + (needle.length + rest.length) := by
    have sizes := congrArg List.length whole
    rw [List.length_append,List.length_append,List.length_take,Nat.min_eq_left (by omega)] at sizes
    exact sizes
  have turned : text.reverse = rest.reverse ++ (needle.reverse ++ (text.take i).reverse) := by
    calc
      text.reverse = (text.take i ++ (needle ++ rest)).reverse := congrArg List.reverse whole
      _ = rest.reverse ++ (needle.reverse ++ (text.take i).reverse) := by simp only [List.reverse_append,List.append_assoc]
  have place : text.length - i - needle.length = rest.reverse.length := by
    rw [List.length_reverse]
    omega
  rw [place]
  refine ⟨?_,?_⟩
  · rw [List.length_reverse,List.length_reverse,List.length_reverse]
    omega
  · rw [turned,List.drop_left]
    exact List.prefix_append _ _

end Qdrust.Library.Search
