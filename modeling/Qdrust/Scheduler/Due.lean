import Mathlib.Algebra.Order.Ring.Int
import Mathlib.Data.List.Chain
import Mathlib.Tactic.Ring
import Qdrust.Library.Window
import Qdrust.Store.Model

/-! When a task is due. Instants are nanoseconds since the epoch; the cron and
time zone libraries are parameters, used through what they document. -/
namespace Qdrust.Scheduler
open Library Store

def nanos : Int := 1000000000

/-- `timestamp()` of an instant. -/
def timestamp (instant : Int) : Int := instant / nanos

/-- The instants a UTC date can name, in seconds. -/
def minTimestamp : Int := -8334601228800
def maxTimestamp : Int := 8210266876799

/-- `Utc.timestamp_opt(seconds, 0).single()`. -/
def timestampOpt (seconds : Int) : Option Int :=
  if minTimestamp ≤ seconds ∧ seconds ≤ maxTimestamp then some (seconds * nanos) else none

/-- The cron expressions and time zones of the libraries. -/
structure Cron where
  Schedule : Type
  Tz : Type
  fromStr : String → Option Schedule
  parseTz : String → Option Tz
  /-- `schedule.after(&since).next()`. -/
  after : Schedule → Tz → Int → Option Int

namespace Cron

/-- The occurrences of a schedule are what its iterators yield. -/
def Occurs (cron : Cron) (schedule : cron.Schedule) (tz : cron.Tz) (o : Int) : Prop :=
  ∃ since, cron.after schedule tz since = some o

/-- `after` yields the earliest occurrence strictly later than its argument, and
occurrences are whole seconds. -/
structure Lawful (cron : Cron) : Prop where
  later : ∀ schedule tz since o, cron.after schedule tz since = some o → since < o
  earliest : ∀ schedule tz since o, cron.Occurs schedule tz o → since < o →
    ∃ first, cron.after schedule tz since = some first ∧ first ≤ o
  whole : ∀ schedule tz o, cron.Occurs schedule tz o → nanos ∣ o

end Cron

variable {cron : Cron}

/-- The time zone a task is scheduled in. -/
def zone (cron : Cron) (task : Task) (defaultTz : cron.Tz) : cron.Tz :=
  (task.timezone.bind cron.parseTz).getD defaultTz

/-- The instant a task looks back to: its last run, or one interval before the
second reading of the clock. -/
def since (task : Task) (interval again : Int) : Int :=
  ((task.lastRunAt.filter (0 < ·)).bind timestampOpt).getD (again - interval)

/-- The first occurrence after the instant a task looks back to. -/
def upcoming (cron : Cron) (task : Task) (interval : Int) (defaultTz : cron.Tz) (again : Int) : Option Int :=
  match cron.fromStr task.cron with
  | none => none
  | some schedule => cron.after schedule (zone cron task defaultTz) (since task interval again)

/-- Whether a task fires on a tick that reads the clock at `now` and `again`. -/
def due (cron : Cron) (task : Task) (interval : Int) (defaultTz : cron.Tz) (now again : Int) : Bool :=
  if task.disabled then false else
    match upcoming cron task interval defaultTz again with
    | some next => next ≤ now
    | none => false

/-- A due task has an occurrence in its window. -/
theorem due_iff (lawful : cron.Lawful) {task : Task} {interval : Int} {defaultTz : cron.Tz}
    {now again : Int} {schedule : cron.Schedule} (parsed : cron.fromStr task.cron = some schedule) :
    due cron task interval defaultTz now again = true ↔
      task.disabled = false ∧ ∃ o, cron.Occurs schedule (zone cron task defaultTz) o ∧
        since task interval again < o ∧ o ≤ now := by
  unfold due upcoming
  cases task.disabled with
  | true => simp
  | false =>
    simp only [Bool.false_eq_true,if_false,parsed,true_and]
    constructor
    · intro fires
      split at fires
      next next found =>
        exact ⟨next,⟨_,found⟩,lawful.later _ _ _ _ found,by simpa using fires⟩
      next => contradiction
    · rintro ⟨o,occurs,low,high⟩
      obtain ⟨first,found,least⟩ := lawful.earliest _ _ _ o occurs low
      rw [found]
      simpa using le_trans least high

/-- The two clock readings of a tick. -/
structure Tick where
  now : Int
  again : Int
  ordered : now ≤ again

/-- The window in which a tick looks for an occurrence of a task without a last run. -/
def Tick.window (interval : Int) (tick : Tick) : Window Int := ⟨tick.again - interval,tick.now⟩

/-- Ticks one after another. -/
def Ticking (ticks : List Tick) : Prop := ticks.Pairwise fun a b => a.now < b.now ∧ a.again ≤ b.now

theorem Ticking.advancing {ticks : List Tick} (ticking : Ticking ticks) (interval : Int) :
    Window.Advancing (ticks.map (Tick.window interval)) := by
  refine List.pairwise_map.mpr (ticking.imp fun {a b} step => ⟨step.1,?_⟩)
  have read := b.ordered
  simp only [Tick.window]
  omega

/-- The tick reports the occurrence: the task is due, and the occurrence lies in
the window the tick looked at. -/
def reports (cron : Cron) (task : Task) (interval : Int) (defaultTz : cron.Tz) (o : Int) (tick : Tick) : Bool :=
  due cron task interval defaultTz tick.now tick.again &&
    (decide (since task interval tick.again < o) && decide (o ≤ tick.now))

/-- The tick that first passes `o` comes less than an interval after it, and the
next one at least an interval after it. -/
def Spaced (ticks : List Tick) (interval o : Int) : Prop :=
  ∀ past tick future, ticks = past ++ tick :: future → (∀ t ∈ past, t.now < o) → o ≤ tick.now →
    tick.again < o + interval ∧ ∀ next ∈ future.head?, o + interval ≤ next.again

/-- The occurrence lies between the first and the last tick. -/
def Between (ticks : List Tick) (o : Int) : Prop :=
  (∃ first ∈ ticks.head?, first.now ≤ o) ∧ ∃ last ∈ ticks.getLast?, o ≤ last.now

theorem since_never {task : Task} (never : task.lastRunAt = none) (interval again : Int) :
    since task interval again = again - interval := by
  simp [since,never]

theorem reports_never (lawful : cron.Lawful) {task : Task} (never : task.lastRunAt = none)
    {interval : Int} {defaultTz : cron.Tz} {schedule : cron.Schedule}
    (parsed : cron.fromStr task.cron = some schedule) {o : Int}
    (occurs : cron.Occurs schedule (zone cron task defaultTz) o) (tick : Tick) :
    reports cron task interval defaultTz o tick =
      (!task.disabled && Window.covers o (tick.window interval)) := by
  have inside : Window.covers o (tick.window interval) = true ↔
      since task interval tick.again < o ∧ o ≤ tick.now := by
    rw [since_never never]
    exact Window.covers_iff
  rw [Bool.eq_iff_iff]
  simp only [reports,Bool.and_eq_true,due_iff lawful parsed,Bool.not_eq_true',inside,decide_eq_true_eq]
  constructor
  · rintro ⟨⟨enabled,_⟩,low,high⟩
    exact ⟨enabled,low,high⟩
  · rintro ⟨enabled,low,high⟩
    exact ⟨⟨enabled,o,occurs,low,high⟩,low,high⟩

/-- The condition on the ticks, read on their windows. -/
theorem count_windows (ticks : List Tick) (ticking : Ticking ticks) (interval o : Int)
    (reached : ∃ tick ∈ ticks, o ≤ tick.now) :
    (ticks.map (Tick.window interval)).countP (Window.covers o) = 1 ↔ Spaced ticks interval o := by
  have advancing := ticking.advancing interval
  constructor
  · rintro once past tick future rfl before here
    have reaching : Window.Reaching ((past ++ tick :: future).map (Tick.window interval)) o
        (past.map (Tick.window interval)) (tick.window interval) (future.map (Tick.window interval)) :=
      ⟨by simp,by simpa [Tick.window] using before,here⟩
    obtain ⟨low,next⟩ := (Window.count_eq_one _ advancing o reaching).mp once
    refine ⟨by simp only [Tick.window] at low; omega,fun t head => ?_⟩
    have far := next (t.window interval) (by simpa using ⟨t,head,rfl⟩)
    simp only [Tick.window] at far
    omega
  · intro spaced
    obtain ⟨t,member,here⟩ := reached
    obtain ⟨past,w,future,reaching⟩ := Window.exists_reaching (ticks.map (Tick.window interval)) o
      ⟨t.window interval,List.mem_map_of_mem member,here⟩
    obtain ⟨before,rest,split,rfl,tail⟩ := List.map_eq_append_iff.mp reaching.split
    obtain ⟨tick,after,rfl,rfl,rfl⟩ := List.map_eq_cons_iff.mp tail
    obtain ⟨low,next⟩ := spaced before tick after split
      (by simpa [Tick.window] using reaching.before) reaching.reached
    refine (Window.count_eq_one _ advancing o reaching).mpr
      ⟨by simp only [Tick.window]; omega,fun v head => ?_⟩
    obtain ⟨t,first,rfl⟩ := Option.mem_map.mp (List.head?_map ▸ head)
    have far := next t first
    simp only [Tick.window]
    omega

/-- Every occurrence between the first and the last tick is reported once exactly
when the ticks are spaced around it and the task is enabled. -/
theorem ticks_report_once_iff (lawful : cron.Lawful) {task : Task} (never : task.lastRunAt = none)
    {schedule : cron.Schedule} (parsed : cron.fromStr task.cron = some schedule) (interval : Int)
    (defaultTz : cron.Tz) (ticks : List Tick) (ticking : Ticking ticks) :
    (∀ o, cron.Occurs schedule (zone cron task defaultTz) o → Between ticks o →
        ticks.countP (reports cron task interval defaultTz o) = 1) ↔
      ∀ o, cron.Occurs schedule (zone cron task defaultTz) o → Between ticks o →
        task.disabled = false ∧ Spaced ticks interval o := by
  refine forall_congr' fun o => forall_congr' fun occurs => forall_congr' fun between => ?_
  have reached : ∃ tick ∈ ticks, o ≤ tick.now := by
    obtain ⟨_,last,final,here⟩ := between
    exact ⟨last,List.mem_of_getLast? final,here⟩
  have counted : ticks.countP (reports cron task interval defaultTz o) =
      ticks.countP fun tick => !task.disabled && Window.covers o (tick.window interval) :=
    List.countP_congr fun tick _ => by rw [reports_never lawful never parsed occurs tick]
  rw [counted,← count_windows ticks ticking interval o reached,List.countP_map]
  cases task.disabled with
  | true => simp
  | false => simp [Function.comp_def]

/-- Ticks that read the clock once and follow each other at the interval are
spaced around every instant. -/
theorem spaced_of_even {ticks : List Tick} {interval : Int} (positive : 0 < interval)
    (single : ∀ tick ∈ ticks, tick.again = tick.now)
    (even : ticks.IsChain fun a b => b.now = a.now + interval) {o : Int}
    (begun : ∃ first ∈ ticks.head?, first.now ≤ o) : Spaced ticks interval o := by
  rintro past tick future rfl before here
  have read := single tick (by simp)
  have chain := List.isChain_append.mp even
  refine ⟨?_,fun next head => ?_⟩
  · rcases List.eq_nil_or_concat past with rfl | ⟨earlier,last,rfl⟩
    · obtain ⟨first,head,low⟩ := begun
      cases Option.mem_some_iff.mp head
      omega
    · have step := chain.2.2 last (by simp) tick (by simp)
      have low := before last (by simp)
      omega
  · have step := (List.isChain_cons.mp chain.2.1).1 next head
    have again := single next (by
      have inside := List.mem_of_mem_head? head
      simp [inside])
    omega

/-- The schedule of every full minute, in one time zone. -/
def everyMinute : Cron where
  Schedule := Unit
  Tz := Unit
  fromStr text := if text = "0 * * * * *" then some () else none
  parseTz name := if name = "UTC" then some () else none
  after _ _ since := some ((since / (60 * nanos) + 1) * (60 * nanos))

theorem everyMinute_lawful : everyMinute.Lawful where
  later := by
    rintro _ _ since o yields
    simp only [everyMinute,nanos,Option.some.injEq] at yields
    omega
  earliest := by
    rintro _ _ since o ⟨earlier,yields⟩ later
    refine ⟨_,rfl,?_⟩
    simp only [everyMinute,nanos,Option.some.injEq] at yields ⊢
    omega
  whole := by
    rintro _ _ o ⟨earlier,yields⟩
    simp only [everyMinute,Option.some.injEq] at yields
    exact ⟨(earlier / (60 * nanos) + 1) * 60,by rw [← yields]; ring⟩

/-- A task that checks in every minute. -/
def checkIn : TaskRow where
  id := 1
  ownerId := some 1
  name := "check-in"
  cron := "0 * * * * *"
  method := "GET"
  url := "https://example.com/"
  headers := .obj []
  body := none
  disabled := false
  createdAt := 0
  updatedAt := 0
  lastRunAt := none
  lastStatus := none
  lastError := none
  templateId := none
  grp := none
  timeoutSeconds := none
  retryCount := none
  retryIntervalSeconds := none
  priority := 0
  timezone := none
  randomDelayMaxSeconds := 0
  vars := none

def minutely : Task := taskFromRow checkIn

/-- A tick that reads the clock once. -/
def tickAt (seconds : Int) : Tick := ⟨seconds * nanos,seconds * nanos,Int.le_refl _⟩

/-- A late tick skips the minute before it, an early one reports it again. -/
theorem minute_skipped_or_repeated :
    (everyMinute.Occurs () () (60 * nanos) ∧ Ticking [tickAt 59,tickAt 76] ∧
      Between [tickAt 59,tickAt 76] (60 * nanos) ∧
      [tickAt 59,tickAt 76].countP (reports everyMinute minutely (15 * nanos) () (60 * nanos)) = 0) ∧
    (Ticking [tickAt 60,tickAt 74] ∧ Between [tickAt 60,tickAt 74] (60 * nanos) ∧
      [tickAt 60,tickAt 74].countP (reports everyMinute minutely (15 * nanos) () (60 * nanos)) = 2) := by
  refine ⟨⟨⟨0,by decide⟩,?_,?_,by decide⟩,?_,?_,by decide⟩ <;>
    simp [Ticking,Between,tickAt,nanos]

/-- Three ticks at the interval. -/
theorem ticks_report_once_even :
    everyMinute.Occurs () () (60 * nanos) ∧ Between [tickAt 45,tickAt 60,tickAt 75] (60 * nanos) ∧
      [tickAt 45,tickAt 60,tickAt 75].countP
        (reports everyMinute minutely (15 * nanos) () (60 * nanos)) = 1 := by
  have occurs : everyMinute.Occurs () () (60 * nanos) := ⟨0,by decide⟩
  have between : Between [tickAt 45,tickAt 60,tickAt 75] (60 * nanos) := by
    simp [Between,tickAt,nanos]
  refine ⟨occurs,between,?_⟩
  have ticking : Ticking [tickAt 45,tickAt 60,tickAt 75] := by
    simp [Ticking,tickAt,nanos]
  have parsed : everyMinute.fromStr minutely.cron = some () := rfl
  refine (ticks_report_once_iff everyMinute_lawful rfl parsed (15 * nanos) () _ ticking).mpr
    (fun o _ between => ⟨rfl,?_⟩) _ occurs between
  refine spaced_of_even (by decide) (by simp [tickAt]) ?_ between.1
  simp [tickAt,nanos]

end Qdrust.Scheduler
