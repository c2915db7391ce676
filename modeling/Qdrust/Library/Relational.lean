import Mathlib.Logic.Function.Basic
import Qdrust.Library.Table

/-! Tables whose rows refer to rows of other tables, without foreign keys. A transaction
deletes by one statement after the other, and others write in between. -/
namespace Qdrust.Library.Relational

/-- A row: its key, and the keys its columns refer to. -/
structure Row (L : Type) where
  id : Int
  link : L → Option Int

abbrev Db (T L : Type) := T → Table (Row L) Row.id

variable {T L : Type}

def rows (db : Db T L) : T → List (Row L) := fun t => (db t).rows

/-- The condition of a `DELETE`. -/
inductive Cond (T L : Type) where
  | id (value : Int)
  | among (values : List Int)
  | link (l : L) (value : Int)
  | within (l : L) (t : T) (c : Cond T L)
  | both (a b : Cond T L)
  | either (a b : Cond T L)

abbrev Statement (T L : Type) := T × Cond T L

namespace Cond

def eval [DecidableEq L] (view : T → List (Row L)) : Cond T L → Row L → Bool
  | .id value,row => row.id == value
  | .among values,row => values.contains row.id
  | .link l value,row => row.link l == some value
  | .within l t c,row => (view t).any fun parent => row.link l == some parent.id && c.eval view parent
  | .both a b,row => a.eval view row && b.eval view row
  | .either a b,row => a.eval view row || b.eval view row

/-- The tables of the subselects. -/
def reads : Cond T L → List T
  | .within _ t c => t :: c.reads
  | .both a b | .either a b => a.reads ++ b.reads
  | _ => []

variable [DecidableEq T] [DecidableEq L]

/-- Every subselect follows a reference. -/
def typed (refs : List (T × L × T)) : T → Cond T L → Bool
  | t,.within l parent c => refs.contains (t,l,parent) && c.typed refs parent
  | t,.both a b | t,.either a b => a.typed refs t && b.typed refs t
  | _,_ => true

/-- The condition, on rows of `t`, does not read the link `l₀` of a row of `t₀`. -/
def avoids (t₀ : T) (l₀ : L) : T → Cond T L → Bool
  | t,.link l _ => t != t₀ || l != l₀
  | t,.within l parent c => (t != t₀ || l != l₀) && c.avoids t₀ l₀ parent
  | t,.both a b | t,.either a b => a.avoids t₀ l₀ t && b.avoids t₀ l₀ t
  | _,_ => true

end Cond

/-- Every reference finds a row. -/
def Referential (refs : List (T × L × T)) (view : T → List (Row L)) : Prop :=
  ∀ child l parent, (child,l,parent) ∈ refs → ∀ row ∈ view child, ∀ i, row.link l = some i → ∃ p ∈ view parent, p.id = i

instance (refs : List (T × L × T)) (view : T → List (Row L)) : Decidable (Referential refs view) :=
  decidable_of_iff (∀ ref ∈ refs, ∀ row ∈ view ref.1, ((row.link ref.2.1).all fun i =>
    (view ref.2.2).any fun p => p.id == i) = true) (by
    simp only [Referential,Option.all_eq_true,List.any_eq_true,beq_iff_eq]
    exact ⟨fun all child l parent refers => all (child,l,parent) refers,fun all ref => all ref.1 ref.2.1 ref.2.2⟩)

variable [DecidableEq T] [DecidableEq L]

/-- A statement of the program picks the row. -/
def marked (program : List (Statement T L)) (view : T → List (Row L)) (t : T) (row : Row L) : Bool :=
  program.any fun st => decide (st.1 = t) && st.2.eval view row

/-- What a transaction sees: what is there but for what it has deleted. -/
def visible (db : Db T L) (removed : T → List Int) : T → List (Row L) := fun t =>
  (db t).rows.filter fun row => !(removed t).contains row.id

def execute (db : Db T L) (removed : T → List Int) (st : Statement T L) : T → List Int :=
  Function.update removed st.1
    (removed st.1 ++ ((visible db removed st.1).filter fun row => st.2.eval (visible db removed) row).map Row.id)

def commit (db : Db T L) (removed : T → List Int) : Db T L := fun t =>
  (db t).delete fun row => (removed t).contains row.id

/-- No statement reads a table that the ones before it delete from. -/
def ordered (earlier : List T) : List (Statement T L) → Bool
  | [] => true
  | st :: rest => (st.2.reads.all fun t => !earlier.contains t) && ordered (earlier ++ [st.1]) rest

section Views

variable {refs : List (T × L × T)} {view other : T → List (Row L)} {t : T} {c : Cond T L} {row : Row L}

omit [DecidableEq T] in
theorem eval_congr (same : ∀ t ∈ c.reads, view t = other t) : c.eval view row = c.eval other row := by
  induction c generalizing row with
  | id value => rfl
  | among values => rfl
  | link l value => rfl
  | within l t c ih =>
    simp only [Cond.eval,same t (List.mem_cons_self ..)]
    congr 1
    funext parent
    rw [ih fun t member => same t (List.mem_cons_of_mem _ member)]
  | both a b iha ihb =>
    simp only [Cond.eval]
    rw [iha fun t member => same t (List.mem_append_left _ member),
      ihb fun t member => same t (List.mem_append_right _ member)]
  | either a b iha ihb =>
    simp only [Cond.eval]
    rw [iha fun t member => same t (List.mem_append_left _ member),
      ihb fun t member => same t (List.mem_append_right _ member)]

/-- A condition holds of a row in a part of the tables as it does in the whole, as long as
the part lacks no row that one of its rows refers to. -/
theorem eval_part (referential : Referential refs other) (part : ∀ t, ∀ row ∈ other t, row ∈ view t)
    (unique : ∀ t, ∀ a ∈ view t, ∀ b ∈ view t, a.id = b.id → a = b) (typed : c.typed refs t = true)
    (member : row ∈ other t) : c.eval other row = c.eval view row := by
  induction c generalizing t row with
  | id value => rfl
  | among values => rfl
  | link l value => rfl
  | within l parent c ih =>
    simp only [Cond.typed,Bool.and_eq_true,List.contains_iff_mem] at typed
    obtain ⟨refers,typed⟩ := typed
    simp only [Cond.eval]
    rw [Bool.eq_iff_iff,List.any_eq_true,List.any_eq_true]
    constructor
    · rintro ⟨p,there,holds⟩
      refine ⟨p,part parent p there,?_⟩
      rwa [← ih typed there]
    · rintro ⟨p,there,holds⟩
      rw [Bool.and_eq_true,beq_iff_eq] at holds
      obtain ⟨q,kept,same⟩ := referential t l parent refers row member p.id holds.1
      rw [unique parent q (part parent q kept) p there same] at kept
      refine ⟨p,kept,?_⟩
      rw [Bool.and_eq_true,beq_iff_eq,ih typed kept]
      exact holds
  | both a b iha ihb =>
    simp only [Cond.typed,Bool.and_eq_true] at typed
    simp only [Cond.eval]
    rw [iha typed.1 member,ihb typed.2 member]
  | either a b iha ihb =>
    simp only [Cond.typed,Bool.and_eq_true] at typed
    simp only [Cond.eval]
    rw [iha typed.1 member,ihb typed.2 member]

/-- Rewriting one column does not matter to a condition that does not read it. -/
theorem eval_rewrite {t₀ : T} {l₀ : L} {f : T → Row L → Row L} (images : ∀ t, other t = (view t).map (f t))
    (ids : ∀ t row, (f t row).id = row.id) (links : ∀ t l row, t ≠ t₀ ∨ l ≠ l₀ → (f t row).link l = row.link l)
    (avoids : c.avoids t₀ l₀ t = true) : c.eval other (f t row) = c.eval view row := by
  induction c generalizing t row with
  | id value => simp only [Cond.eval,ids]
  | among values => simp only [Cond.eval,ids]
  | link l value =>
    have apart : t ≠ t₀ ∨ l ≠ l₀ := by simpa [Cond.avoids] using avoids
    simp only [Cond.eval,links t l row apart]
  | within l parent c ih =>
    simp only [Cond.avoids,Bool.and_eq_true] at avoids
    have apart : t ≠ t₀ ∨ l ≠ l₀ := by simpa using avoids.1
    simp only [Cond.eval,images parent,List.any_map]
    congr 1
    funext p
    simp only [Function.comp_apply,ids,links t l row apart,ih avoids.2]
  | both a b iha ihb =>
    simp only [Cond.avoids,Bool.and_eq_true] at avoids
    simp only [Cond.eval]
    rw [iha avoids.1,ihb avoids.2]
  | either a b iha ihb =>
    simp only [Cond.avoids,Bool.and_eq_true] at avoids
    simp only [Cond.eval]
    rw [iha avoids.1,ihb avoids.2]

omit [DecidableEq T] [DecidableEq L] in
theorem unique_rows (db : Db T L) (t : T) : ∀ a ∈ rows db t, ∀ b ∈ rows db t, a.id = b.id → a = b :=
  fun _ first _ second same => (db t).key_unique first second same

theorem marked_iff {program : List (Statement T L)} :
    marked program view t row = true ↔ ∃ c, (t,c) ∈ program ∧ c.eval view row = true := by
  simp only [marked,List.any_eq_true,Bool.and_eq_true,decide_eq_true_eq]
  constructor
  · rintro ⟨⟨_,c⟩,member,rfl,holds⟩
    exact ⟨c,member,holds⟩
  · rintro ⟨c,member,holds⟩
    exact ⟨(t,c),member,rfl,holds⟩

end Views

/-- What a transaction has marked so far, in the tables as they are now. -/
structure Progress (db : Db T L) (program : List (Statement T L)) (removed : T → List Int) : Prop where
  sound : ∀ t, ∀ row ∈ rows db t, row.id ∈ removed t → marked program (rows db) t row = true
  bounded : ∀ t, ∀ i ∈ removed t, i ≤ (db t).last
  untouched : ∀ t, t ∉ program.map Prod.fst → removed t = []

/-- Every row of the table that the program picks is marked. -/
def Covers (db : Db T L) (program : List (Statement T L)) (removed : T → List Int) (t : T) : Prop :=
  ∀ row ∈ rows db t, marked program (rows db) t row = true → row.id ∈ removed t

section Transactions

variable {refs : List (T × L × T)} {db : Db T L} {program : List (Statement T L)} {removed : T → List Int}
variable {st : Statement T L} {t : T}

theorem progress_begin (db : Db T L) : Progress db [] (fun _ => []) where
  sound _ _ _ marks := by cases marks
  bounded _ _ marks := by cases marks
  untouched _ _ := rfl

theorem covers_begin (db : Db T L) (t : T) : Covers db [] (fun _ => []) t := by
  rintro _ _ ⟨⟩

omit [DecidableEq T] [DecidableEq L] in
theorem mem_visible {row : Row L} : row ∈ visible db removed t ↔ row ∈ rows db t ∧ row.id ∉ removed t := by
  simp [visible,rows]

/-- The subselects read tables from which nothing was deleted. -/
theorem eval_visible (progress : Progress db program removed) (apart : ∀ t ∈ st.2.reads, t ∉ program.map Prod.fst)
    (row : Row L) : st.2.eval (visible db removed) row = st.2.eval (rows db) row := by
  refine eval_congr fun t member => ?_
  rw [visible,progress.untouched t (apart t member)]
  simp [rows]

theorem mem_execute {i : Int} : i ∈ execute db removed st t ↔
    i ∈ removed t ∨ t = st.1 ∧ ∃ row ∈ visible db removed t, st.2.eval (visible db removed) row = true ∧ row.id = i := by
  unfold execute
  by_cases same : t = st.1
  · subst same
    simp [and_assoc]
  · simp [same]

theorem marked_snoc {view : T → List (Row L)} {row : Row L} : marked (program ++ [st]) view t row =
    (marked program view t row || (decide (st.1 = t) && st.2.eval view row)) := by
  simp [marked]

theorem progress_execute (progress : Progress db program removed) (apart : ∀ t ∈ st.2.reads, t ∉ program.map Prod.fst) :
    Progress db (program ++ [st]) (execute db removed st) where
  sound t row member marks := by
    rw [marked_snoc,Bool.or_eq_true]
    rcases mem_execute.mp marks with old | ⟨rfl,row',there,holds,same⟩
    · exact .inl (progress.sound t row member old)
    · have equal := unique_rows db st.1 row' (mem_visible.mp there).1 row member same
      rw [eval_visible progress apart,equal] at holds
      exact .inr (by simp [holds])
  bounded t i marks := by
    rcases mem_execute.mp marks with old | ⟨-,row,there,-,rfl⟩
    · exact progress.bounded t i old
    · exact (db t).bounded row (mem_visible.mp there).1
  untouched t fresh := by
    rw [List.map_append,List.mem_append,not_or] at fresh
    have other : t ≠ st.1 := by simpa using fresh.2
    rw [execute,Function.update_of_ne other]
    exact progress.untouched t fresh.1

theorem covers_execute (progress : Progress db program removed) (apart : ∀ t ∈ st.2.reads, t ∉ program.map Prod.fst)
    (covers : Covers db program removed t) : Covers db (program ++ [st]) (execute db removed st) t := by
  intro row member marks
  rw [marked_snoc,Bool.or_eq_true] at marks
  refine mem_execute.mpr ?_
  by_cases already : row.id ∈ removed t
  · exact .inl already
  · rcases marks with old | new
    · exact .inl (covers row member old)
    · rw [Bool.and_eq_true,decide_eq_true_eq] at new
      obtain ⟨rfl,holds⟩ := new
      refine .inr ⟨rfl,row,mem_visible.mpr ⟨member,already⟩,?_,rfl⟩
      rw [eval_visible progress apart]
      exact holds

/-- All subselects of a program follow references. -/
def TypedProgram (refs : List (T × L × T)) (program : List (Statement T L)) : Prop :=
  ∀ st ∈ program, st.2.typed refs st.1 = true

/-- In a part of the tables that lacks no row referred to, the same rows are picked. -/
theorem marked_part {view other : T → List (Row L)} {row : Row L} (typed : TypedProgram refs program)
    (referential : Referential refs other) (part : ∀ t, ∀ row ∈ other t, row ∈ view t)
    (unique : ∀ t, ∀ a ∈ view t, ∀ b ∈ view t, a.id = b.id → a = b) (member : row ∈ other t) :
    marked program other t row = marked program view t row := by
  rw [Bool.eq_iff_iff,marked_iff,marked_iff]
  constructor
  · rintro ⟨c,listed,holds⟩
    exact ⟨c,listed,(eval_part referential part unique (typed _ listed) member).symm.trans holds⟩
  · rintro ⟨c,listed,holds⟩
    exact ⟨c,listed,(eval_part referential part unique (typed _ listed) member).trans holds⟩

/-- The tables lose rows, to another transaction. -/
theorem progress_shrink {after : Db T L} (typed : TypedProgram refs program) (referential : Referential refs (rows after))
    (part : ∀ t, ∀ row ∈ rows after t, row ∈ rows db t) (last : ∀ t, (after t).last = (db t).last)
    (progress : Progress db program removed) : Progress after program removed where
  sound t row member marks := by
    rw [marked_part typed referential part (unique_rows db) member]
    exact progress.sound t row (part t row member) marks
  bounded t i marks := last t ▸ progress.bounded t i marks
  untouched := progress.untouched

theorem covers_shrink {after : Db T L} (typed : TypedProgram refs program) (referential : Referential refs (rows after))
    (part : ∀ t, ∀ row ∈ rows after t, row ∈ rows db t) (covers : Covers db program removed t) :
    Covers after program removed t := by
  intro row member marks
  rw [marked_part typed referential part (unique_rows db) member] at marks
  exact covers row (part t row member) marks

/-- The tables gain rows, under new keys. -/
theorem progress_grow {after : Db T L} (typed : TypedProgram refs program) (referential : Referential refs (rows db))
    (part : ∀ t, ∀ row ∈ rows db t, row ∈ rows after t) (last : ∀ t, (db t).last ≤ (after t).last)
    (fresh : ∀ t, ∀ row ∈ rows after t, row ∈ rows db t ∨ (db t).last < row.id)
    (progress : Progress db program removed) : Progress after program removed where
  sound t row member marks := by
    rcases fresh t row member with old | new
    · rw [← marked_part typed referential part (unique_rows after) old]
      exact progress.sound t row old marks
    · have bound := progress.bounded t row.id marks
      omega
  bounded t i marks := Int.le_trans (progress.bounded t i marks) (last t)
  untouched := progress.untouched

theorem covers_grow {after : Db T L} (typed : TypedProgram refs program) (referential : Referential refs (rows db))
    (part : ∀ t, ∀ row ∈ rows db t, row ∈ rows after t)
    (fresh : ∀ row ∈ rows after t, row ∈ rows db t ∨ marked program (rows after) t row = false)
    (covers : Covers db program removed t) : Covers after program removed t := by
  intro row member marks
  rcases fresh row member with old | new
  · rw [← marked_part typed referential part (unique_rows after) old] at marks
    exact covers row old marks
  · rw [new] at marks
    cases marks

/-- A column is rewritten that the program does not read. -/
theorem progress_rewrite {after : Db T L} {t₀ : T} {l₀ : L} {f : T → Row L → Row L}
    (images : ∀ t, rows after t = (rows db t).map (f t)) (ids : ∀ t row, (f t row).id = row.id)
    (links : ∀ t l row, t ≠ t₀ ∨ l ≠ l₀ → (f t row).link l = row.link l) (last : ∀ t, (after t).last = (db t).last)
    (avoids : ∀ st ∈ program, st.2.avoids t₀ l₀ st.1 = true) (progress : Progress db program removed) :
    Progress after program removed where
  sound t row member marks := by
    rw [images,List.mem_map] at member
    obtain ⟨old,there,rfl⟩ := member
    rw [ids] at marks
    obtain ⟨c,listed,holds⟩ := marked_iff.mp (progress.sound t old there marks)
    exact marked_iff.mpr ⟨c,listed,(eval_rewrite images ids links (avoids _ listed)).trans holds⟩
  bounded t i marks := last t ▸ progress.bounded t i marks
  untouched := progress.untouched

theorem covers_rewrite {after : Db T L} {t₀ : T} {l₀ : L} {f : T → Row L → Row L}
    (images : ∀ t, rows after t = (rows db t).map (f t)) (ids : ∀ t row, (f t row).id = row.id)
    (links : ∀ t l row, t ≠ t₀ ∨ l ≠ l₀ → (f t row).link l = row.link l)
    (avoids : ∀ st ∈ program, st.2.avoids t₀ l₀ st.1 = true) (covers : Covers db program removed t) :
    Covers after program removed t := by
  intro row member marks
  rw [images,List.mem_map] at member
  obtain ⟨old,there,rfl⟩ := member
  rw [ids]
  obtain ⟨c,listed,holds⟩ := marked_iff.mp marks
  exact covers old there (marked_iff.mpr ⟨c,listed,(eval_rewrite images ids links (avoids _ listed)).symm.trans holds⟩)

omit [DecidableEq T] [DecidableEq L] in
theorem mem_commit {row : Row L} : row ∈ rows (commit db removed) t ↔ row ∈ rows db t ∧ row.id ∉ removed t := by
  simp [rows,commit,Table.mem_delete]

/-- A program that deletes with each row those that refer to it leaves no reference behind. -/
theorem commit_referential (referential : Referential refs (rows db)) (progress : Progress db program removed)
    (closed : ∀ child l parent, (child,l,parent) ∈ refs → ∀ x ∈ rows db child, ∀ y ∈ rows db parent,
      x.link l = some y.id → marked program (rows db) parent y = true → x.id ∈ removed child) :
    Referential refs (rows (commit db removed)) := by
  intro child l parent refers x member i points
  obtain ⟨there,kept⟩ := mem_commit.mp member
  obtain ⟨y,found,rfl⟩ := referential child l parent refers x there i points
  refine ⟨y,mem_commit.mpr ⟨found,fun marks => ?_⟩,rfl⟩
  exact kept (closed child l parent refers x there y found points (progress.sound parent y found marks))

end Transactions

end Qdrust.Library.Relational
