import Qdrust.Scheduler.Steps

/-! Who may end or prolong a run that is held: the process that claimed it last,
unless its lease has expired. -/
namespace Qdrust.Scheduler
open Library Store

variable {Proc : Type}

theorem workerName_injective : Function.Injective workerName := by
  intro a b same
  have digits : Nat.toDigits 10 a = Nat.toDigits 10 b := by
    rw [← Nat.toList_repr,← Nat.toList_repr]
    exact congrArg String.toList ((String.append_right_inj _).mp same)
  rw [← Nat.ofDigitChars_ten_toDigits (n := a),digits,Nat.ofDigitChars_ten_toDigits]

/-- The process that claimed a run last. -/
def holder (history : List (Event Proc)) (run : Int) : Option Proc :=
  history.findSome? fun event =>
    match event with
    | .claimed p claimed => if claimed = run then some p else none
    | _ => none

variable {d : Deployment Proc} {s t : System Proc} {a : Action Proc}

theorem holder_append {recent history : List (Event Proc)} {run : Int}
    (others : ∀ p, .claimed p run ∉ recent) : holder (recent ++ history) run = holder history run := by
  have silent : recent.findSome? (fun event : Event Proc =>
      match event with
      | .claimed p claimed => if claimed = run then some p else none
      | _ => none) = none := by
    rw [List.findSome?_eq_none_iff]
    intro event member
    cases event with
    | claimed p claimed =>
      simp only [ite_eq_right_iff]
      rintro rfl
      exact absurd member (others p)
    | cancelled run => rfl
    | retried retry failed => rfl
    | fired task occurrence run => rfl
  rw [holder,List.findSome?_append,silent,Option.none_or]
  rfl

/-- A held run is leased to the process that claimed it last. -/
def Leased (d : Deployment Proc) (s : System Proc) : Prop :=
  ∀ r ∈ s.db.runs.rows, r.status.held = true →
    ∃ p, holder s.history r.id = some p ∧ r.leaseOwner = some (d.name p)

theorem leased_init (tasks : Table TaskRow TaskRow.id) (clock : Int) :
    Leased d (System.init tasks clock : System Proc) := fun r member => by cases member

variable [DecidableEq Proc]

theorem leased_step (leased : Leased d s) (taken : step d s a = some t) : Leased d t := by
  intro r' after held
  have recent := step_history taken
  by_cases claims : ∃ p row, a = .proceed p ∧ s.phase p = .claim ∧
      s.db.claimCandidate (timestamp s.clock) = some row ∧ row.id = r'.id
  · obtain ⟨p,row,rfl,claiming,best,same⟩ := claims
    obtain ⟨claimed,rows⟩ := claim_step claiming best taken
    rw [rows r' after same.symm,claimed]
    exact ⟨p,by simp [holder,Run.leasedBy],rfl⟩
  · have quiet : ∀ p, .claimed p r'.id ∉ logged d s a := by
      intro p member
      generalize named : r'.id = run at member
      cases logged_cases member with
      | claimed q row claiming best => exact claims ⟨p,row,rfl,claiming,best,named.symm⟩
    rw [recent,holder_append quiet]
    rcases step_origin taken after with ⟨r,before,same⟩ | new
    · have origin := leased r before
      rw [same]
      cases step_row taken before after same with
      | kept => exact origin held
      | worked p _ _ row =>
        generalize phase : s.phase p = current at row
        cases row with
        | kept => exact origin held
        | recovered => simp at held
        | claimed _ best => exact absurd ⟨p,r,rfl,phase,best,rfl⟩ claims
        | started run _ _ leasedRow => exact origin (by simp [leasedRow,RunStatus.held])
        | finished => simp at held
      | cancelled => exact origin (by simpa using held)
      | renewed p run _ task executing _ heldBefore => exact origin heldBefore
    · rw [new.status] at held
      cases held

theorem leased_reachable {tasks : Table TaskRow TaskRow.id} {clock : Int}
    (reach : Transition.Reachable (step d) (System.init tasks clock) s) : Leased d s :=
  reach.invariant (fun _ _ _ leased _ taken => leased_step leased taken) (leased_init tasks clock)

/-- The step ends a held run, moves it out of the running state or moves its lease. -/
def Interferes (r r' : Run) : Prop :=
  r.status.held = true ∧ (r'.status.held = false ∨ r'.leaseExpiresAt ≠ r.leaseExpiresAt ∨
    (r.status = .running ∧ r'.status ≠ .running))

/-- The process that takes a step. -/
def Action.actor : Action Proc → Option Proc
  | .proceed p | .complete p _ | .renew p | .crash p | .tick p _ _ => some p
  | _ => none

/-- A process takes an expired lease over, by recovery or by a claim. -/
def TakesOver (s : System Proc) (a : Action Proc) (r : Run) : Prop :=
  sqlLe r.leaseExpiresAt (timestamp s.clock) = true ∧
    ∃ p, a = .proceed p ∧ (s.phase p = .recover ∨ s.phase p = .claim)

/-- Only the process that claimed a run last ends or prolongs it, as long as the
lease has not expired and been taken over. -/
def OnlyHolder (s : System Proc) (a : Action Proc) (t : System Proc) : Prop :=
  ∀ r ∈ s.db.runs.rows, ∀ r' ∈ t.db.runs.rows, r'.id = r.id → Interferes r r' →
    (∃ p, a.actor = some p ∧ holder s.history r.id = some p) ∨ TakesOver s a r

omit [DecidableEq Proc] in
theorem not_only_holder {q : Proc} (other : a.actor ≠ some q)
    (held : ∃ r ∈ s.db.runs.rows, ∃ r' ∈ t.db.runs.rows, r'.id = r.id ∧ Interferes r r' ∧
      holder s.history r.id = some q ∧ sqlLe r.leaseExpiresAt (timestamp s.clock) = false) :
    ¬OnlyHolder s a t := by
  obtain ⟨r,before,r',after,same,interferes,latest,live⟩ := held
  intro only
  rcases only r before r' after same interferes with ⟨p,actor,claimed⟩ | ⟨expired,_⟩
  · rw [latest] at claimed
    cases claimed
    exact other actor
  · rw [live] at expired
    cases expired

/-- A `finish_run` finds the caller's own lease on the run, or none. -/
def OwnFinish (d : Deployment Proc) (s : System Proc) (a : Action Proc) : Prop :=
  ∀ p run task outcome, a = .proceed p → s.phase p = .finish run task outcome →
    ∀ r ∈ s.db.runs.rows, r.id = run.id → r.status.held = true → r.leaseOwner = some (d.name p)

/-- With process ids that differ, a step respects the holder of a run exactly
when it is not a `finish_run` on a lease of another process. -/
theorem only_holder_iff {tasks : Table TaskRow TaskRow.id} {clock : Int}
    (distinct : Function.Injective d.pid)
    (reach : Transition.Reachable (step d) (System.init tasks clock) s) (taken : step d s a = some t) :
    OnlyHolder s a t ↔ OwnFinish d s a := by
  have leased := leased_reachable reach
  have owner : ∀ r ∈ s.db.runs.rows, r.status.held = true → ∀ p, r.leaseOwner = some (d.name p) →
      holder s.history r.id = some p := by
    intro r member held p own
    obtain ⟨q,latest,name⟩ := leased r member held
    rw [own] at name
    rw [latest,distinct (workerName_injective (Option.some.inj name))]
  constructor
  · rintro only p run task outcome rfl finishing r member same held
    obtain ⟨r',after,keyed,_⟩ := (step_lawful taken).evolves.moved r member
    have ended : r' = r.finished outcome.httpStatus outcome.error (timestamp s.clock) := by
      cases taken
      simp only [System.proceed,finishing,work] at after
      rw [row_of_update member after keyed]
      simp [same,held]
    rcases only r member r' after keyed ⟨held,Or.inl (by simp [ended])⟩ with ⟨q,actor,latest⟩ | ⟨_,q,acts,takes⟩
    · cases actor
      obtain ⟨q,latest',name⟩ := leased r member held
      rw [latest] at latest'
      cases latest'
      exact name
    · cases acts
      rw [finishing] at takes
      rcases takes with other | other <;> cases other
  · intro own r before r' after same interferes
    obtain ⟨held,interferes⟩ := interferes
    cases step_row taken before after same with
    | kept => simp [held] at interferes
    | worked p _ _ row =>
      generalize phase : s.phase p = current at row
      cases row with
      | kept => simp [held] at interferes
      | recovered _ _ expired => exact Or.inr ⟨expired,p,rfl,Or.inl phase⟩
      | claimed _ best =>
        have takeable := (candidate_spec best).2
        simp only [Run.claimable,Run.takeable,Bool.and_eq_true,Bool.or_eq_true,beq_iff_eq] at takeable
        rcases takeable.1.2 with pending | ⟨_,expired⟩
        · rw [pending] at held
          cases held
        · exact Or.inr ⟨expired,p,rfl,Or.inr phase⟩
      | started run _ _ leasedRow => simp [Run.started,RunStatus.held,leasedRow] at interferes
      | finished run task outcome _ named =>
        exact Or.inl ⟨p,rfl,owner r before held p (own p run task outcome rfl phase r before named held)⟩
    | cancelled _ active =>
      have stays : r.status ≠ .pending := by
        intro pending
        rw [pending] at held
        cases held
      simp [held,Run.cancelAsked,stays] at interferes
    | renewed p run _ task executing _ _ ownLease => exact Or.inl ⟨p,rfl,owner r before held p ownLease⟩

/-- The ids of two processes on one host. -/
def twoIds (p : Bool) : Nat := if p then 1 else 2

theorem twoIds_injective : Function.Injective twoIds := by
  intro p q same
  cases p <;> cases q <;> simp_all [twoIds]

/-- A run that its own worker is about to finish. -/
def inTime : List (Action Bool) :=
  [.enqueue 1,.proceed true,.proceed true,.proceed true,.proceed true,.complete true (.ok 200 none),
    .proceed true]

theorem only_holder_in_time :
    ∃ s t, Transition.Reachable (step (replicas twoIds)) (System.init (oneTask checkIn) 0) s ∧
      step (replicas twoIds) s (.proceed true) = some t ∧ OnlyHolder s (.proceed true) t := by
  refine ⟨_,_,Transition.reachable_get _ inTime (by decide),rfl,?_⟩
  refine (only_holder_iff twoIds_injective (Transition.reachable_get _ inTime (by decide)) rfl).mpr ?_
  intro p run task outcome acts finishing r member same held
  cases acts
  clear same held
  revert r
  decide

/-- One process claims a run and executes past its lease; the other recovers and
claims it. -/
def reclaimed : List (Action Bool) :=
  [.enqueue 1,.proceed true,.proceed true,.proceed true,.proceed true,.advance 301000000000,
    .proceed false,.proceed false,.proceed false,.proceed false]

def lateFinish : List (Action Bool) := reclaimed ++ [.complete true (.ok 200 none),.proceed true]

def lateRenewal : List (Action Bool) := reclaimed ++ [.advance 60000000000]

instance (r r' : Run) : Decidable (Interferes r r') := inferInstanceAs (Decidable (_ ∧ _))

/-- A process whose lease is lost still ends the run of another, and one with the
same process id still renews its lease. -/
theorem late_worker_interferes :
    (∃ s t, Transition.Reachable (step (replicas twoIds)) (System.init (oneTask checkIn) 0) s ∧
      step (replicas twoIds) s (.proceed true) = some t ∧ ¬OnlyHolder s (.proceed true) t) ∧
    ∃ s t, Transition.Reachable (step (replicas fun _ => 1))
        (System.init (oneTask { checkIn with templateId := some 1 }) 0) s ∧
      step (replicas fun _ => 1) s (.renew true) = some t ∧ ¬OnlyHolder s (.renew true) t := by
  constructor
  · refine ⟨_,_,Transition.reachable_get _ lateFinish (by decide),rfl,?_⟩
    exact not_only_holder (q := false) (by decide) (by decide)
  · refine ⟨_,_,Transition.reachable_get _ lateRenewal (by decide),rfl,?_⟩
    exact not_only_holder (q := false) (by decide) (by decide)

end Qdrust.Scheduler
