import Qdrust.Library.Paging
import Qdrust.Library.Text
import Qdrust.Store.Runs

/-! The list of an owner's templates and the list of an owner's runs, a page at a time. -/
namespace Qdrust.Store
open Library Paging

/-- `value.clamp(low, high)`. -/
def clamp (value low high : Int) : Int := max low (min value high)

/-- What the search reads of a row of `templates`. -/
structure TemplateEntry where
  id : Int
  ownerId : Option Int
  name : String
  grp : Option String
deriving DecidableEq

structure TemplatesQuery where
  q : Option String
  grp : Option String
  cursor : Option Int
  limit : Option Int

section Templates

-- The database's own `LIKE`, of a name and a pattern.
variable (like : String → String → Bool) (table : Table TemplateEntry TemplateEntry.id) (ownerId : Int)

def templateChosen (query grp : Option String) (row : TemplateEntry) : Bool :=
  let pattern := (query.map fun q => "%" ++ Text.trimBy Text.whiteSpace q ++ "%").filter (· ≠ "")
  row.ownerId = some ownerId && pattern.all (like row.name ·) && grp.all (row.grp = some ·)

def searchTemplatesForOwner (query grp : Option String) (cursor : Option Int) (limit : Int) : List TemplateEntry :=
  table.newestBelow (templateChosen like ownerId query grp) cursor (clamp limit 1 200 + 1)

/-- A `none` is the slice `..templates.len() - 1` of no templates, which panics. -/
def listTemplates (query : TemplatesQuery) : Option (Page TemplateEntry) :=
  let limit := query.limit.getD 50
  let templates := searchTemplatesForOwner like table ownerId query.q query.grp query.cursor limit
  if limit < templates.length then
    if templates.isEmpty then none
    else
      let items := templates.take (templates.length - 1)
      some ⟨items,true,items.getLast?.map TemplateEntry.id⟩
  else some ⟨templates,false,none⟩

end Templates

/-- `from` and `to` are bounds of `created_at`. -/
structure RunsQuery where
  status : Option String
  taskId : Option Int
  fromTime : Option Int
  toTime : Option Int
  beforeId : Option Int
  limit : Option Int

/-- `runs.status`. -/
def RunStatus.text : RunStatus → String
  | .pending => "pending"
  | .leased => "leased"
  | .running => "running"
  | .succeeded => "succeeded"
  | .failed => "failed"
  | .cancelled => "cancelled"

structure RunFilter where
  status : Option String
  taskId : Option Int
  fromTime : Option Int
  toTime : Option Int
  beforeId : Option Int
  limit : Int

section Runs

variable (db : Db) (ownerId : Int)

def runChosen (filter : RunFilter) (run : Run) : Bool :=
  (db.tasks.find run.taskId).any (fun task => task.ownerId = some ownerId) && filter.status.all (run.status.text = ·) &&
    filter.taskId.all (run.taskId = ·) && filter.fromTime.all (· ≤ run.createdAt) && filter.toTime.all (run.createdAt < ·)

def searchRunsForOwner (filter : RunFilter) : List Run :=
  (db.runs.newestBelow (runChosen db ownerId filter) filter.beforeId (clamp filter.limit 1 500 + 1)).map runFields

def RunsQuery.filter (query : RunsQuery) : RunFilter where
  status := (query.status.map (Text.trimBy Text.whiteSpace)).filter (· ≠ "")
  taskId := query.taskId
  fromTime := query.fromTime
  toTime := query.toTime
  beforeId := query.beforeId
  limit := clamp (query.limit.getD 100) 1 500

def listRuns (query : RunsQuery) : Page Run :=
  let filter := query.filter
  let runs := searchRunsForOwner db ownerId filter
  if filter.limit < runs.length then
    let items := runs.take filter.limit.toNat
    ⟨items,true,items.getLast?.map Run.id⟩
  else ⟨runs,false,none⟩

end Runs

section Laws

variable {like : String → String → Bool} {table : Table TemplateEntry TemplateEntry.id} {ownerId : Int}

/-- The rows a client asks for, newest first. -/
def matchingTemplates (like : String → String → Bool) (table : Table TemplateEntry TemplateEntry.id) (ownerId : Int)
    (q grp : Option String) : List TemplateEntry := table.newest (templateChosen like ownerId q grp)

def matchingRuns (db : Db) (ownerId : Int) (query : RunsQuery) : List Run :=
  (db.runs.newest (runChosen db ownerId query.filter)).map runFields

theorem clamp_inside {value low high : Int} (above : low ≤ value) (below : value ≤ high) : clamp value low high = value := by
  unfold clamp
  omega

/-- One row more than the page holds tells whether there is more. -/
theorem lookAhead_fits {ρ : Type} (key : ρ → Int) {size : Nat} {rows : List ρ} (fits : rows.length ≤ size) :
    lookAhead key size rows = ⟨rows.take (size + 1),false,none⟩ := by
  rw [lookAhead,if_neg (by omega),List.take_of_length_le (by omega)]

variable (like table ownerId) in
theorem search_eq (q grp : Option String) (cursor : Option Int) (limit : Int) :
    searchTemplatesForOwner like table ownerId q grp cursor limit =
      ((matchingTemplates like table ownerId q grp).filter (below TemplateEntry.id cursor)).take
        (clamp limit 1 200 + 1).toNat := by
  unfold searchTemplatesForOwner matchingTemplates
  exact table.newestBelow_eq _ cursor _

section Templates

variable {q grp : Option String} {limit : Option Int} {cursor : Option Int}

/-- Where the rows that were read are not above the limit, the page is the last one. -/
theorem listTemplates_last {read : List TemplateEntry}
    (found : searchTemplatesForOwner like table ownerId q grp cursor (limit.getD 50) = read)
    (fits : (read.length : Int) ≤ limit.getD 50) :
    listTemplates like table ownerId ⟨q,grp,cursor,limit⟩ = some ⟨read,false,none⟩ := by
  unfold listTemplates
  dsimp only
  rw [found,if_neg (by omega)]

/-- Otherwise the last row that was read is left for the next page. -/
theorem listTemplates_more (read : List TemplateEntry) {last : TemplateEntry}
    (found : searchTemplatesForOwner like table ownerId q grp cursor (limit.getD 50) = read ++ [last])
    (goes : limit.getD 50 ≤ read.length) :
    listTemplates like table ownerId ⟨q,grp,cursor,limit⟩ = some ⟨read,true,read.getLast?.map TemplateEntry.id⟩ := by
  have some_read : (read ++ [last]).isEmpty = false := by simp
  unfold listTemplates
  dsimp only
  rw [found,if_pos (by rw [List.length_append,List.length_singleton]; omega),some_read,if_neg Bool.false_ne_true,
    List.length_append,List.length_singleton,Nat.add_sub_cancel,List.take_left]

/-- Within the bounds of the store, the handler and the store mean the same row by the one to look ahead at. -/
theorem listTemplates_inside (positive : 1 ≤ limit.getD 50) (bounded : limit.getD 50 ≤ 200) (cursor : Option Int) :
    listTemplates like table ownerId ⟨q,grp,cursor,limit⟩ =
      some (lookAhead TemplateEntry.id (limit.getD 50).toNat
        ((matchingTemplates like table ownerId q grp).filter (below TemplateEntry.id cursor))) := by
  have found := search_eq like table ownerId q grp cursor (limit.getD 50)
  rw [clamp_inside positive bounded] at found
  have count : (limit.getD 50 + 1).toNat = (limit.getD 50).toNat + 1 := by omega
  rw [count] at found
  by_cases more : (limit.getD 50).toNat < ((matchingTemplates like table ownerId q grp).filter (below TemplateEntry.id cursor)).length
  · rw [List.take_succ_eq_append_getElem more] at found
    rw [listTemplates_more _ found (by rw [List.length_take]; omega),lookAhead,if_pos more]
  · rw [lookAhead_fits _ (by omega)]
    exact listTemplates_last found (by rw [List.length_take]; omega)

/-- Above the bound of the store all that is read is one page. -/
theorem listTemplates_above (large : 200 < limit.getD 50) :
    listTemplates like table ownerId ⟨q,grp,none,limit⟩ =
      some ⟨(matchingTemplates like table ownerId q grp).take 201,false,none⟩ := by
  have capped : clamp (limit.getD 50) 1 200 = 200 := by
    unfold clamp
    omega
  have found := search_eq like table ownerId q grp none (limit.getD 50)
  rw [capped,filter_below_none] at found
  exact listTemplates_last found (by rw [List.length_take]; omega)

/-- At or below zero a page that was read says there is more. -/
theorem listTemplates_below (small : limit.getD 50 ≤ 0) {row : TemplateEntry} {rest : List TemplateEntry}
    (found : (matchingTemplates like table ownerId q grp).filter (below TemplateEntry.id cursor) = row :: rest) :
    listTemplates like table ownerId ⟨q,grp,cursor,limit⟩ =
      some (if rest = [] then ⟨[],true,none⟩ else ⟨[row],true,some row.id⟩) := by
  have least : clamp (limit.getD 50) 1 200 = 1 := by
    unfold clamp
    omega
  have read := search_eq like table ownerId q grp cursor (limit.getD 50)
  rw [least,found] at read
  cases rest with
  | nil => exact listTemplates_more [] read small
  | cons next rest =>
    rw [if_neg (List.cons_ne_nil _ _)]
    exact listTemplates_more [row] read (by rw [List.length_singleton]; omega)

theorem listTemplates_nothing (found : (matchingTemplates like table ownerId q grp).filter (below TemplateEntry.id cursor) = []) :
    listTemplates like table ownerId ⟨q,grp,cursor,limit⟩ = if limit.getD 50 < 0 then none else some ⟨[],false,none⟩ := by
  have read := search_eq like table ownerId q grp cursor (limit.getD 50)
  rw [found,List.take_nil] at read
  by_cases negative : limit.getD 50 < 0
  · rw [if_pos negative]
    unfold listTemplates
    dsimp only
    rw [read,if_pos (by rw [List.length_nil]; omega),List.isEmpty_nil,if_pos rfl]
  · rw [if_neg negative]
    exact listTemplates_last read (by rw [List.length_nil]; omega)

/-- Below zero no page says that it is the last one. -/
theorem templates_negative (negative : limit.getD 50 < 0) (rows : List TemplateEntry) :
    ¬Lists (fun cursor => listTemplates like table ownerId ⟨q,grp,cursor,limit⟩) rows := by
  rintro ⟨pages,walk,_⟩
  refine walk_endless (fun _ => True) (fun cursor page _ fetched => ⟨?_,trivial⟩) trivial walk
  cases found : (matchingTemplates like table ownerId q grp).filter (below TemplateEntry.id cursor) with
  | nil =>
    rw [listTemplates_nothing found,if_pos negative] at fetched
    cases fetched
  | cons row rest =>
    rw [listTemplates_below (by omega) found,Option.some.injEq] at fetched
    subst fetched
    split <;> rfl

/-- With a limit of zero the last row that is left is never handed out. -/
theorem templates_zero (zero : limit.getD 50 = 0) (some_match : matchingTemplates like table ownerId q grp ≠ [])
    (rows : List TemplateEntry) : ¬Lists (fun cursor => listTemplates like table ownerId ⟨q,grp,cursor,limit⟩) rows := by
  rintro ⟨pages,walk,_⟩
  refine walk_endless (fun cursor => (matchingTemplates like table ownerId q grp).filter (below TemplateEntry.id cursor) ≠ [])
    (fun cursor page left fetched => ?_) (by rwa [filter_below_none]) walk
  obtain ⟨row,rest,found⟩ := List.exists_cons_of_ne_nil left
  rw [listTemplates_below (by omega) found,Option.some.injEq] at fetched
  subst fetched
  cases rest with
  | nil => exact ⟨rfl,by rwa [if_pos rfl,filter_below_none]⟩
  | cons next rest =>
    rw [if_neg (List.cons_ne_nil _ _)]
    have descending : ((row :: next :: rest).Pairwise fun a b => b.id < a.id) := by
      rw [← found]
      exact (table.newest_descending _).sublist List.filter_sublist
    have lower : next.id < row.id := List.rel_of_pairwise_cons descending List.mem_cons_self
    have there : next ∈ (matchingTemplates like table ownerId q grp).filter (below TemplateEntry.id cursor) := by
      rw [found]
      exact List.mem_cons_of_mem _ List.mem_cons_self
    exact ⟨rfl,List.ne_nil_of_mem (List.mem_filter.mpr ⟨List.mem_of_mem_filter there,decide_eq_true lower⟩)⟩

end Templates

/-- The pages of templates list what matches for a limit within the bounds of the store; for zero
when nothing matches; and above the bounds when all of it is read at once. -/
theorem templates_lists_iff (like : String → String → Bool) (table : Table TemplateEntry TemplateEntry.id) (ownerId : Int)
    (q grp : Option String) (limit : Option Int) :
    Lists (fun cursor => listTemplates like table ownerId ⟨q,grp,cursor,limit⟩) (matchingTemplates like table ownerId q grp) ↔
      (1 ≤ limit.getD 50 ∧ limit.getD 50 ≤ 200) ∨ (limit.getD 50 = 0 ∧ matchingTemplates like table ownerId q grp = []) ∨
        (200 < limit.getD 50 ∧ (matchingTemplates like table ownerId q grp).length ≤ 201) := by
  rcases lt_or_ge (limit.getD 50) 0 with negative | natural
  · exact iff_of_false (templates_negative negative _) (by omega)
  rcases lt_or_ge 200 (limit.getD 50) with large | bounded
  · rw [lists_single (listTemplates_above large) rfl,List.take_eq_self_iff]
    exact ⟨fun few => .inr (.inr ⟨large,few⟩),by omega⟩
  rcases lt_or_ge 0 (limit.getD 50) with positive | zero
  · refine iff_of_true ?_ (.inl ⟨positive,bounded⟩)
    exact lists_lookAhead (table.newest_descending _) (by omega) (listTemplates_inside positive bounded)
  · have exactly : limit.getD 50 = 0 := by omega
    by_cases nothing : matchingTemplates like table ownerId q grp = []
    · refine iff_of_true ?_ (.inr (.inl ⟨exactly,nothing⟩))
      have first : listTemplates like table ownerId ⟨q,grp,none,limit⟩ = _ :=
        listTemplates_nothing ((filter_below_none _).trans nothing)
      rw [if_neg (by omega)] at first
      exact (lists_single first rfl).mpr nothing.symm
    · exact iff_of_false (templates_zero exactly nothing _) fun cases => by
        rcases cases with ⟨one,_⟩ | ⟨_,nothing'⟩ | ⟨more,_⟩
        · omega
        · exact nothing nothing'
        · omega

theorem matchingRuns_below (db : Db) (ownerId : Int) (query : RunsQuery) (cursor : Option Int) :
    (matchingRuns db ownerId query).filter (below Run.id cursor) =
      ((db.runs.newest (runChosen db ownerId query.filter)).filter (below Run.id cursor)).map runFields := by
  have same : below Run.id cursor ∘ runFields = below Run.id cursor := by
    cases cursor <;> rfl
  rw [matchingRuns,List.filter_map,same]

theorem matchingRuns_descending (db : Db) (ownerId : Int) (query : RunsQuery) :
    (matchingRuns db ownerId query).Pairwise fun a b => b.id < a.id :=
  List.pairwise_map.mpr (db.runs.newest_descending _)

theorem listRuns_eq (db : Db) (ownerId : Int) (query : RunsQuery) :
    listRuns db ownerId query =
      lookAhead Run.id query.filter.limit.toNat ((matchingRuns db ownerId query).filter (below Run.id query.beforeId)) := by
  have bounds : 1 ≤ query.filter.limit ∧ query.filter.limit ≤ 500 := by
    unfold RunsQuery.filter clamp
    dsimp only
    omega
  have found : searchRunsForOwner db ownerId query.filter =
      ((matchingRuns db ownerId query).filter (below Run.id query.beforeId)).take (query.filter.limit + 1).toNat := by
    unfold searchRunsForOwner
    rw [clamp_inside bounds.1 bounds.2,Table.newestBelow_eq,List.map_take,matchingRuns_below]
    rfl
  have count : (query.filter.limit + 1).toNat = query.filter.limit.toNat + 1 := by omega
  rw [count] at found
  unfold listRuns
  dsimp only
  rw [found,List.length_take,List.take_take,Nat.min_eq_left (Nat.le_succ _)]
  by_cases more : query.filter.limit.toNat < ((matchingRuns db ownerId query).filter (below Run.id query.beforeId)).length
  · rw [if_pos (by omega),lookAhead,if_pos more]
  · rw [if_neg (by omega),lookAhead_fits _ (by omega)]

/-- The handler of the runs clamps the limit as the store does, so its pages list all that match. -/
theorem runs_lists (db : Db) (ownerId : Int) (query : RunsQuery) :
    Lists (fun cursor => some (listRuns db ownerId { query with beforeId := cursor })) (matchingRuns db ownerId query) := by
  have positive : 0 < query.filter.limit.toNat := by
    unfold RunsQuery.filter clamp
    dsimp only
    omega
  exact lists_lookAhead (matchingRuns_descending db ownerId query) positive fun cursor =>
    congrArg some (listRuns_eq db ownerId { query with beforeId := cursor })

/-- Following the cursors of either list. -/
theorem paging_iff (like : String → String → Bool) (table : Table TemplateEntry TemplateEntry.id) (db : Db) (ownerId : Int)
    (q grp : Option String) (limit : Option Int) (query : RunsQuery) :
    Lists (fun cursor => some (listRuns db ownerId { query with beforeId := cursor })) (matchingRuns db ownerId query) ∧
      (Lists (fun cursor => listTemplates like table ownerId ⟨q,grp,cursor,limit⟩) (matchingTemplates like table ownerId q grp) ↔
        (1 ≤ limit.getD 50 ∧ limit.getD 50 ≤ 200) ∨
          (limit.getD 50 = 0 ∧ matchingTemplates like table ownerId q grp = []) ∨
            (200 < limit.getD 50 ∧ (matchingTemplates like table ownerId q grp).length ≤ 201)) :=
  ⟨runs_lists db ownerId query,templates_lists_iff like table ownerId q grp limit⟩

/-- One template and a limit of zero: its page holds nothing, and says that there is more. -/
theorem one_template_unlisted :
    ¬∀ (like : String → String → Bool) (table : Table TemplateEntry TemplateEntry.id) (ownerId : Int) (q grp : Option String)
      (limit : Option Int),
      Lists (fun cursor => listTemplates like table ownerId ⟨q,grp,cursor,limit⟩) (matchingTemplates like table ownerId q grp) := by
  intro claimed
  let table : Table TemplateEntry TemplateEntry.id := Table.empty.insert (fun id => ⟨id,some 1,"daily",none⟩) fun _ => rfl
  have nonempty : matchingTemplates (fun _ _ => true) table 1 none none ≠ [] := by decide
  exact templates_zero rfl nonempty _ (claimed (fun _ _ => true) table 1 none none (some 0))

end Laws
end Qdrust.Store
