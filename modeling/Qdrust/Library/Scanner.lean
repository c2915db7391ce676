import Mathlib.Data.List.Basic

/-! Readers that take a text piece by piece from its front. -/
namespace Qdrust.Library.Scanner

variable {α β : Type}

def scanFrom (step : List α → List β × List α) : Nat → List α → List β
  | 0, _ => []
  | _ + 1, [] => []
  | fuel + 1, c :: text => (step (c :: text)).1 ++ scanFrom step fuel (step (c :: text)).2

/-- What the pieces of a text are read as. -/
def scan (step : List α → List β × List α) (text : List α) : List β := scanFrom step text.length text

/-- Every piece has an element or more. -/
def Advances (step : List α → List β × List α) : Prop := ∀ c text, (step (c :: text)).2.length ≤ text.length

variable {step : List α → List β × List α}

theorem scanFrom_fuel (advances : Advances step) {fuel fuel' : Nat} {text : List α} (enough : text.length ≤ fuel)
    (enough' : text.length ≤ fuel') : scanFrom step fuel text = scanFrom step fuel' text := by
  induction fuel generalizing text fuel' with
  | zero =>
    rw [List.eq_nil_of_length_eq_zero (Nat.le_zero.mp enough)]
    cases fuel' <;> rfl
  | succ fuel ih =>
    cases text with
    | nil => cases fuel' <;> rfl
    | cons c text =>
      rw [List.length_cons] at enough enough'
      obtain ⟨fuel',rfl⟩ := Nat.exists_eq_add_of_lt (show 0 < fuel' by omega)
      have shorter := advances c text
      rw [scanFrom,scanFrom,ih (show _ ≤ fuel by omega) (show _ ≤ 0 + fuel' by omega)]

theorem scan_nil : scan step [] = [] := rfl

theorem scan_cons (advances : Advances step) (c : α) (text : List α) :
    scan step (c :: text) = (step (c :: text)).1 ++ scan step (step (c :: text)).2 := by
  rw [scan,List.length_cons,scanFrom,scan,scanFrom_fuel advances (advances c text) (Nat.le_refl _)]

/-- A property of every text, from the empty one and from what a step leaves. -/
theorem scan_induction (advances : Advances step) {motive : List α → Prop} (empty : motive [])
    (piece : ∀ c text, motive (step (c :: text)).2 → motive (c :: text)) (text : List α) : motive text := by
  induction length : text.length using Nat.strongRecOn generalizing text with
  | ind length' ih =>
  cases text with
  | nil => exact empty
  | cons c text =>
    rw [List.length_cons] at length
    have shorter := advances c text
    exact piece c text (ih _ (by omega) _ rfl)

end Qdrust.Library.Scanner
