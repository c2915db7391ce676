import Qdrust.Library.Concurrent

/-! Routines whose every call rests on what the answers before it told: rules for putting
such routines together. Routines that may also return an error are among them. -/
namespace Qdrust.Library.Concurrent
open Routine Transition

variable {κ ρ τ υ ε : Type} {α : κ → Type} {learns : (request : κ) → Option (α request) → List τ}
  {permits : List τ → κ → Prop} {known : List τ}

/-- Every call is permitted by what is known when it is made, and `post` holds of what is known
in the end and of the result. -/
def Warranted (learns : (request : κ) → Option (α request) → List τ) (permits : List τ → κ → Prop) :
    List τ → Routine κ α ρ → (List τ → ρ → Prop) → Prop
  | known,.done result,post => post known result
  | _,.failed,_ => True
  | known,.call request next,post => permits known request ∧
    ∀ answer, Warranted learns permits (learns request answer ++ known) (next answer) post

theorem warranted_grounded {routine : Routine κ α ρ} {post : List τ → ρ → Prop}
    (warranted : Warranted learns permits known routine post) : Grounded learns permits known routine := by
  induction routine generalizing known with
  | done result => exact .done result
  | failed => exact .failed
  | call request next ih => exact .call warranted.1 fun answer => ih answer (warranted.2 answer)

theorem warranted_mono {routine : Routine κ α ρ} {post weaker : List τ → ρ → Prop}
    (warranted : Warranted learns permits known routine post)
    (implied : ∀ more result, known ⊆ more → post more result → weaker more result) :
    Warranted learns permits known routine weaker := by
  induction routine generalizing known with
  | done result => exact implied known result (List.Subset.refl _) warranted
  | failed => exact trivial
  | call request next ih =>
    refine ⟨warranted.1,fun answer => ih answer (warranted.2 answer) fun more result within => implied more result ?_⟩
    exact List.Subset.trans (List.subset_append_right _ _) within

theorem warranted_bind {first : Routine κ α ρ} {after : ρ → Routine κ α υ} {post : List τ → υ → Prop}
    (warranted : Warranted learns permits known first fun more result => Warranted learns permits more (after result) post) :
    Warranted learns permits known (first >>= after) post := by
  induction first generalizing known with
  | done result => exact warranted
  | failed => exact trivial
  | call request next ih => exact ⟨warranted.1,fun answer => ih answer (warranted.2 answer)⟩

/-- Routines that return a value or an error. -/
abbrev Fallible (κ : Type) (α : κ → Type) (ε : Type) := ExceptT ε (Routine κ α)

/-- A call whose failure is an error. -/
def query (failure : ε) (request : κ) : Fallible κ α ε (α request) := ExceptT.mk (.call request fun
  | some answer => .done (.ok answer)
  | none => .done (.error failure))

/-- The outcome of a routine, be it an error. -/
def outcome (routine : Fallible κ α ε ρ) : Fallible κ α ε (Except ε ρ) := ExceptT.lift routine.run

/-- What is decided without a call. -/
def decided (result : Except ε ρ) : Fallible κ α ε ρ := ExceptT.mk (.done result)

/-- `Warranted`, with `post` said of values only. -/
structure Assured (learns : (request : κ) → Option (α request) → List τ) (permits : List τ → κ → Prop) (known : List τ)
    (routine : Fallible κ α ε ρ) (post : List τ → ρ → Prop) : Prop where
  warranted : Warranted learns permits known routine.run fun more result => ∀ value, result = .ok value → post more value

section Rules

variable {routine : Fallible κ α ε ρ} {post weaker : List τ → ρ → Prop}

theorem assured_mono (assured : Assured learns permits known routine post)
    (implied : ∀ more value, known ⊆ more → post more value → weaker more value) :
    Assured learns permits known routine weaker :=
  ⟨warranted_mono assured.warranted fun more _ within holds value same => implied more value within (holds value same)⟩

theorem assured_decided {result : Except ε ρ} (holds : ∀ value, result = .ok value → post known value) :
    Assured learns permits known (decided result : Fallible κ α ε ρ) post := ⟨holds⟩

theorem assured_pure {value : ρ} (holds : post known value) :
    Assured learns permits known (pure value : Fallible κ α ε ρ) post := by
  refine ⟨?_⟩
  rintro _ ⟨⟩
  exact holds

theorem assured_query {failure : ε} {request : κ} {post : List τ → α request → Prop} (permitted : permits known request)
    (holds : ∀ answer, post (learns request (some answer) ++ known) answer) :
    Assured learns permits known (query failure request : Fallible κ α ε (α request)) post := by
  refine ⟨permitted,fun answer => ?_⟩
  cases answer with
  | none => exact nofun
  | some answer =>
    rintro _ ⟨⟩
    exact holds answer

theorem assured_bind {after : ρ → Fallible κ α ε υ} {post : List τ → υ → Prop}
    (assured : Assured learns permits known routine fun more value => Assured learns permits more (after value) post) :
    Assured learns permits known (routine >>= after) post := by
  refine ⟨warranted_bind (warranted_mono assured.warranted fun more result _ holds => ?_)⟩
  cases result with
  | error failure => exact nofun
  | ok value => exact (holds value rfl).warranted

/-- A query and what follows its answer. -/
theorem assured_ask {failure : ε} {request : κ} {after : α request → Fallible κ α ε υ} {post : List τ → υ → Prop}
    (permitted : permits known request)
    (rest : ∀ answer, Assured learns permits (learns request (some answer) ++ known) (after answer) post) :
    Assured learns permits known (query failure request >>= after) post :=
  assured_bind (assured_query permitted rest)

/-- What is decided, and what follows a value. -/
theorem assured_check {result : Except ε ρ} {after : ρ → Fallible κ α ε υ} {post : List τ → υ → Prop}
    (rest : ∀ value, result = .ok value → Assured learns permits known (after value) post) :
    Assured learns permits known (decided result >>= after) post :=
  assured_bind (assured_decided rest)

theorem assured_outcome {post : List τ → Except ε ρ → Prop} (assured : Assured learns permits known routine fun _ _ => True)
    (holds : ∀ more result, known ⊆ more → post more result) :
    Assured learns permits known (outcome routine) post := by
  refine ⟨warranted_bind (warranted_mono assured.warranted fun more result within _ => ?_)⟩
  rintro _ ⟨⟩
  exact holds more result within

end Rules

section Runs

variable {ι σ ω : Type} [DecidableEq ι] {handle : Handler κ α σ} {occur : ω → σ → Option σ}

omit [DecidableEq ι] in
theorem warranted_harmless {routine : Routine κ α ρ} (harmless : routine.Avoids fun request => ¬∀ known, permits known request)
    {post : List τ → ρ → Prop} (holds : ∀ more result, known ⊆ more → post more result) :
    Warranted learns permits known routine post := by
  induction harmless generalizing known with
  | done result => exact holds known result (List.Subset.refl _)
  | failed => exact trivial
  | call other _ ih =>
    refine ⟨not_not.mp other known,fun answer => ih answer fun more result within => holds more result ?_⟩
    exact List.Subset.trans (List.subset_append_right _ _) within

omit [DecidableEq ι] in
/-- A part whose calls are always permitted, and what follows it. -/
theorem warranted_then {first : Routine κ α ρ} {after : ρ → Routine κ α υ} {post : List τ → υ → Prop}
    (harmless : first.Avoids fun request => ¬∀ known, permits known request)
    (rest : ∀ more result, known ⊆ more → Warranted learns permits more (after result) post) :
    Warranted learns permits known (first >>= after) post :=
  warranted_bind (warranted_harmless harmless rest)

omit [DecidableEq ι] in
theorem warranted_ask {request : κ} {after : α request → Routine κ α υ} {post : List τ → υ → Prop}
    (permitted : permits known request)
    (rest : ∀ answer, Warranted learns permits (learns request (some answer) ++ known) (after answer) post) :
    Warranted learns permits known (Routine.ask request >>= after) post := by
  rw [Routine.ask_bind]
  refine ⟨permitted,fun answer => ?_⟩
  cases answer with
  | none => exact trivial
  | some answer => exact rest answer

omit [DecidableEq ι] in
/-- A call that is the whole routine. -/
theorem warranted_last {request : κ} {post : List τ → α request → Prop} (permitted : permits known request)
    (holds : ∀ answer, post (learns request (some answer) ++ known) answer) :
    Warranted learns permits known (Routine.ask request) post := by
  refine ⟨permitted,fun answer => ?_⟩
  cases answer with
  | none => exact trivial
  | some answer => exact holds answer

omit [DecidableEq ι] in
theorem warranted_attempt {request : κ} {after : Option (α request) → Routine κ α υ} {post : List τ → υ → Prop}
    (permitted : permits known request)
    (rest : ∀ answer, Warranted learns permits (learns request answer ++ known) (after answer) post) :
    Warranted learns permits known (Routine.attempt request >>= after) post := by
  rw [Routine.attempt_bind]
  exact ⟨permitted,rest⟩

omit [DecidableEq ι] in
/-- A routine of a smaller system, among the calls of a larger one. -/
theorem warranted_embed {κ' : Type} {α' : κ' → Type} {wrap : κ → κ'} {unwrap : ∀ request, α' (wrap request) → α request}
    {learns' : (request : κ') → Option (α' request) → List τ} {permits' : List τ → κ' → Prop}
    (learnt : ∀ request answer, learns' (wrap request) answer = learns request (answer.map (unwrap request)))
    (permitted : ∀ known request, permits known request → permits' known (wrap request)) {routine : Routine κ α ρ}
    {post : List τ → ρ → Prop} (warranted : Warranted learns permits known routine post) :
    Warranted learns' permits' known (routine.embed wrap unwrap) post := by
  induction routine generalizing known with
  | done result => exact warranted
  | failed => exact trivial
  | call request next ih =>
    refine ⟨permitted known request warranted.1,fun answer => ?_⟩
    rw [learnt]
    exact ih _ (warranted.2 _)

theorem mem_gathered {x : τ} {past : List (Event ι κ α)} {i : ι} :
    x ∈ gathered learns past i ↔ ∃ event ∈ past, event.process = i ∧ x ∈ learns event.request event.answer := by
  simp [gathered,and_assoc]

theorem gathered_step {past : List (Event ι κ α)} {i j : ι} {request : κ} {answer : Option (α request)} {x : τ}
    (there : x ∈ gathered learns (⟨i,request,answer⟩ :: past) j) : x ∈ gathered learns past j ∨ j = i ∧ x ∈ learns request answer := by
  by_cases same : j = i
  · subst same
    rw [gathered_self] at there
    exact (List.mem_append.mp there).symm.imp_right fun new => ⟨rfl,new⟩
  · rw [gathered_other same] at there
    exact .inl there

theorem gathered_grows (past : List (Event ι κ α)) (event : Event ι κ α) (j : ι) :
    gathered learns past j ⊆ gathered learns (event :: past) j := by
  intro x there
  obtain ⟨earlier,before,rest⟩ := mem_gathered.mp there
  exact mem_gathered.mpr ⟨earlier,List.mem_cons_of_mem _ before,rest⟩

/-- Calls that were permitted stay so. -/
theorem permitted_past (permits : ι → List τ → κ → Prop) {past : List (Event ι κ α)} {i : ι} {request : κ}
    (answer : Option (α request))
    (permits_mono : ∀ {i known more request}, known ⊆ more → permits i known request → permits i more request)
    (before : ∀ event ∈ past, permits event.process (gathered learns past event.process) event.request)
    (permitted : permits i (gathered learns past i) request) :
    ∀ event ∈ (⟨i,request,answer⟩ : Event ι κ α) :: past,
      permits event.process (gathered learns (⟨i,request,answer⟩ :: past) event.process) event.request := by
  intro event there
  cases there with
  | head => exact permits_mono (gathered_grows past _ _) permitted
  | tail _ there => exact permits_mono (gathered_grows past _ _) (before event there)

/-- Every process stays warranted in what it has been told, where what is common to all is kept by the calls that are
permitted to whoever makes them. -/
theorem warranted_kept {permits : ι → List τ → κ → Prop} {guard : State ι κ α σ ρ → Action ι ω → Prop}
    (common : World ι κ α σ → Prop) (post : ι → List τ → ρ → Prop)
    (called : ∀ (world : World ι κ α σ) i request fails, common world → permits i (gathered learns world.past i) request →
      common (world.perform handle i request fails))
    (outside : ∀ (world : World ι κ α σ) event shared, common world → occur event world.shared = some shared →
      common ⟨shared,world.past⟩)
    {s t : State ι κ α σ ρ} (reach : Reaches (step handle occur) guard s t) (initial : common s.toWorld)
    (warranted : ∀ i, Warranted learns (permits i) (gathered learns s.past i) (s.process i) (post i)) :
    common t.toWorld ∧ ∀ i, Warranted learns (permits i) (gathered learns t.past i) (t.process i) (post i) := by
  have kept : Assertions common (fun i world routine => Warranted learns (permits i) (gathered learns world.past i) routine (post i)) t := by
    refine assertions_kept _ _ ?_ ?_ ?_ reach ⟨initial,warranted⟩
    · intro s i request next fails holds _ outstanding
      have mine := holds.stage i
      rw [outstanding] at mine
      refine ⟨called s.toWorld i request fails holds.common mine.1,?_⟩
      rw [past_perform,gathered_self]
      exact mine.2 _
    · intro s i request next fails j holds _ _ differs
      rw [past_perform,gathered_other differs]
      exact holds.stage j
    · intro s event shared holds _ occurred
      exact ⟨outside s.toWorld event shared holds.common occurred,holds.stage⟩
  exact ⟨kept.common,kept.stage⟩

end Runs

end Qdrust.Library.Concurrent
