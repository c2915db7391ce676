import Mathlib.Logic.Basic
import Mathlib.Tactic.SimpRw

/-! Sequences of checks that stop at the first failure, and when they pass. -/
namespace Qdrust.Library

variable {ε ε' α β : Type}

def ensure (holds : Bool) (message : ε) : Except ε Unit := if holds then .ok () else .error message

@[simp] theorem ensure_ok (holds : Bool) (message : ε) : ensure holds message = .ok () ↔ holds = true := by
  cases holds <;> simp [ensure]

theorem bind_ok {first : Except ε α} {next : α → Except ε β} {result : β} :
    first >>= next = .ok result ↔ ∃ value, first = .ok value ∧ next value = .ok result := by
  cases first with
  | error failure => exact ⟨nofun,nofun⟩
  | ok value =>
    constructor
    · intro done
      exact ⟨value,rfl,done⟩
    · rintro ⟨_,same,done⟩
      cases same
      exact done

/-- A check before the rest. -/
theorem check_ok {check : Except ε Unit} {next : Unit → Except ε β} {result : β} :
    check >>= next = .ok result ↔ check = .ok () ∧ next () = .ok result := by
  rw [bind_ok]
  constructor
  · rintro ⟨_,passed,done⟩
    exact ⟨passed,done⟩
  · rintro ⟨passed,done⟩
    exact ⟨(),passed,done⟩

theorem mapError_ok {change : ε → ε'} {outcome : Except ε α} {value : α} :
    outcome.mapError change = .ok value ↔ outcome = .ok value := by
  cases outcome with
  | error failure =>
    constructor <;> intro same <;> cases same
  | ok result =>
    constructor
    · intro same
      cases same
      rfl
    · intro same
      cases same
      rfl

theorem toOption_ok {outcome : Except ε α} {value : α} : outcome.toOption = some value ↔ outcome = .ok value := by
  cases outcome <;> simp [Except.toOption]

theorem forM_ok {check : α → Except ε Unit} {items : List α} :
    items.forM check = .ok () ↔ ∀ item ∈ items, check item = .ok () := by
  induction items with
  | nil => exact ⟨fun _ => List.forall_mem_nil _,fun _ => rfl⟩
  | cons item rest ih =>
    have step : (item :: rest).forM check = check item >>= fun _ => rest.forM check := rfl
    rw [step,check_ok,ih,List.forall_mem_cons]

end Qdrust.Library
