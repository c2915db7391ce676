import Qdrust.Expression.Template

/-! What the replacement of list declarations keeps: the braces of a text, its
strings, and with them the tags it consists of. -/
namespace Qdrust.Expression
open Library

variable {tables : CharTables}

/-- What the pattern demands of the parts. -/
structure ListDeclaration.Valid (tables : CharTables) (d : ListDeclaration) : Prop where
  opening : d.opening = [] ∨ d.opening = ['-']
  lead : ∀ c ∈ d.lead, Text.whiteSpace c = true
  gap : ∀ c ∈ d.gap, Text.whiteSpace c = true
  apart : d.gap ≠ []
  start : d.name.head?.any nameStart = true
  name : ∀ c ∈ d.name, tables.isWord c = true
  beforeEquals : ∀ c ∈ d.beforeEquals, Text.whiteSpace c = true
  afterEquals : ∀ c ∈ d.afterEquals, Text.whiteSpace c = true
  items : ∀ c ∈ d.items, itemChar c = true
  trail : ∀ c ∈ d.trail, Text.whiteSpace c = true
  closing : d.closing = [] ∨ d.closing = ['-']
  gapStop : ∀ c, d.name.head? = some c → Text.whiteSpace c = false
  nameStop : ∀ c, (d.beforeEquals ++ ['=']).head? = some c → tables.isWord c = false

section Reading

theorem dash_sides {text sign rest : List Char} (read : dash text = (sign,rest)) :
    text = sign ++ rest ∧ (sign = [] ∨ sign = ['-']) := by
  unfold dash at read
  split at read
  · rename_i first
    cases read
    cases text with
    | nil => cases first
    | cons c text =>
      cases first
      exact ⟨rfl,Or.inr rfl⟩
  · cases read
    exact ⟨rfl,Or.inl rfl⟩

theorem dash_append {sign rest : List Char} (valid : sign = [] ∨ sign = ['-']) (stop : rest.head? ≠ some '-') :
    dash (sign ++ rest) = (sign,rest) := by
  rcases valid with rfl | rfl
  · exact if_neg stop
  · rfl

theorem listDeclaration_sound {text rest : List Char} {d : ListDeclaration}
    (read : listDeclaration tables text = some (d,rest)) : d.Valid tables ∧ text = d.text ++ rest := by
  unfold listDeclaration at read
  obtain ⟨t1,begins,read⟩ := Option.bind_eq_some_iff.mp read
  rcases dashed : dash t1 with ⟨opening,t2⟩
  rcases leads : t2.span Text.whiteSpace with ⟨lead,t3⟩
  simp only [dashed,leads] at read
  obtain ⟨t4,keyword,read⟩ := Option.bind_eq_some_iff.mp read
  rcases gaps : t4.span Text.whiteSpace with ⟨gap,t5⟩
  rcases names : t5.span tables.isWord with ⟨name,t6⟩
  rcases spaces : t6.span Text.whiteSpace with ⟨beforeEquals,t7⟩
  simp only [gaps,names,spaces] at read
  split at read
  · cases read
  · rename_i apart
    obtain ⟨t8,equals,read⟩ := Option.bind_eq_some_iff.mp read
    rcases more : t8.span Text.whiteSpace with ⟨afterEquals,t9⟩
    simp only [more] at read
    obtain ⟨t10,bracket,read⟩ := Option.bind_eq_some_iff.mp read
    rcases inner : t10.span itemChar with ⟨items,t11⟩
    simp only [inner] at read
    obtain ⟨t12,closes,read⟩ := Option.bind_eq_some_iff.mp read
    rcases trails : t12.span Text.whiteSpace with ⟨trail,t13⟩
    rcases last : dash t13 with ⟨closing,t14⟩
    simp only [trails,last] at read
    obtain ⟨t15,ends,read⟩ := Option.bind_eq_some_iff.mp read
    cases read
    obtain ⟨rfl,signed⟩ := dash_sides last
    obtain ⟨rfl,trailSpace,_⟩ := Text.span_ok.mp trails
    obtain ⟨rfl,itemsPlain,_⟩ := Text.span_ok.mp inner
    obtain ⟨rfl,afterSpace,_⟩ := Text.span_ok.mp more
    obtain ⟨rfl,beforeSpace,_⟩ := Text.span_ok.mp spaces
    obtain ⟨rfl,nameWord,wordStop⟩ := Text.span_ok.mp names
    obtain ⟨rfl,gapSpace,spaceStop⟩ := Text.span_ok.mp gaps
    obtain ⟨rfl,leadSpace,_⟩ := Text.span_ok.mp leads
    obtain ⟨rfl,sign⟩ := dash_sides dashed
    have begun := Text.expect_ok.mp begins
    have word := Text.expect_ok.mp keyword
    have equal := Text.expect_ok.mp equals
    have bracketed := Text.expect_ok.mp bracket
    have closed := Text.expect_ok.mp closes
    have ended := Text.expect_ok.mp ends
    have named : gap ≠ [] ∧ name.head?.any nameStart = true := by simpa using apart
    refine ⟨⟨sign,leadSpace,gapSpace,named.1,named.2,nameWord,beforeSpace,afterSpace,itemsPlain,trailSpace,signed,
      ?_,?_⟩,?_⟩
    · intro c first
      apply spaceStop c
      cases name with
      | nil => cases first
      | cons head tail => exact first
    · intro c first
      apply wordStop c
      rw [equal]
      cases beforeEquals with
      | nil => exact first
      | cons head tail => exact first
    · rw [begun,word,equal,bracketed,closed,ended]
      simp [ListDeclaration.text,ListDeclaration.before,ListDeclaration.after]

theorem span_append {p : Char → Bool} {front rest : List Char} (all : ∀ c ∈ front, p c = true)
    (stop : ∀ c, rest.head? = some c → p c = false) : (front ++ rest).span p = (front,rest) :=
  Text.span_ok.mpr ⟨rfl,all,stop⟩

theorem expect_append (literal rest : List Char) : literal.isPrefixOf? (literal ++ rest) = some rest :=
  Text.expect_ok.mpr rfl

/-- The head of a text that begins with characters of one kind. -/
theorem head_append {front : List Char} (rest : List Char) {p : Char → Prop} (all : ∀ c ∈ front, p c)
    (next : ∀ c, rest.head? = some c → p c) : ∀ c, (front ++ rest).head? = some c → p c := by
  intro c first
  cases front with
  | nil => exact next c first
  | cons d front =>
    cases first
    exact all c List.mem_cons_self

theorem head_literal {p : Char → Prop} {c : Char} (text : List Char) (holds : p c) :
    ∀ d, (c :: text).head? = some d → p d := by
  intro d first
  cases first
  exact holds

theorem sign_chars {sign : List Char} (valid : sign = [] ∨ sign = ['-']) {p : Char → Prop} (holds : p '-') :
    ∀ c ∈ sign, p c := by
  rcases valid with rfl | rfl
  · exact List.forall_mem_nil _
  · exact List.forall_mem_singleton.mpr holds

/-- A declaration is read whatever follows it. -/
theorem listDeclaration_complete {d : ListDeclaration} (valid : d.Valid tables) (rest : List Char) :
    listDeclaration tables (d.text ++ rest) = some (d,rest) := by
  have shape : d.text ++ rest = ['{','%'] ++ (d.opening ++ (d.lead ++ ("set".toList ++ (d.gap ++ (d.name ++
      (d.beforeEquals ++ (['='] ++ (d.afterEquals ++ (['['] ++ (d.items ++ ([']'] ++ (d.trail ++ (d.closing ++
        (['%','}'] ++ rest)))))))))))))) := by
    simp [ListDeclaration.text,ListDeclaration.before,ListDeclaration.after]
  rw [shape,listDeclaration,expect_append,Option.bind_eq_bind,Option.bind_some,dash_append valid.opening]
  dsimp only
  rw [span_append valid.lead]
  dsimp only
  rw [expect_append,Option.bind_some,span_append valid.gap]
  dsimp only
  rw [span_append valid.name]
  dsimp only
  rw [span_append valid.beforeEquals]
  dsimp only
  rw [if_neg (by simp [valid.apart,valid.start])]
  rw [expect_append,Option.bind_some,span_append valid.afterEquals]
  dsimp only
  rw [expect_append,Option.bind_some,span_append valid.items]
  dsimp only
  rw [expect_append,Option.bind_some,span_append valid.trail]
  dsimp only
  rw [dash_append valid.closing]
  dsimp only
  rw [expect_append]
  · rfl
  · simp
  · exact head_append _ (sign_chars valid.closing (by decide)) (head_literal _ (by decide))
  · exact head_literal _ (by decide)
  · exact head_literal _ (by decide)
  · exact head_literal _ (by decide)
  · intro c first
    apply valid.nameStop c
    cases space : d.beforeEquals with
    | nil =>
      rw [space] at first
      exact first
    | cons head tail =>
      rw [space] at first
      exact first
  · intro c first
    apply valid.gapStop c
    cases name : d.name with
    | nil => exact absurd valid.start (by simp [name])
    | cons head tail =>
      rw [name] at first
      exact first
  · exact head_literal _ (by decide)
  · have other : ∀ c ∈ d.lead, c ≠ '-' := by
      rintro c member rfl
      exact absurd (valid.lead _ member) (by decide)
    intro first
    exact head_append ("set".toList ++ _) other (head_literal _ (by decide)) _ first rfl

end Reading

section Keeping

/-- A character of a part is none that the part's class leaves out. -/
theorem class_ne {p : Char → Bool} {c bad : Char} (inside : p c = true) (out : p bad = false) : c ≠ bad := by
  rintro rfl
  rw [inside] at out
  cases out

theorem isWord_ascii {c : Char} (small : c.toNat < 128) : tables.isWord c = (c.isAlphanum || c == '_') :=
  if_pos small

/-- Every character around the items, before and after the replacement, is of one
of these kinds. -/
theorem around_chars {d : ListDeclaration} (valid : d.Valid tables) {p : Char → Prop} (sign : p '-')
    (keyword : ∀ c ∈ " set = __qd_list([]) ".toList, p c) (space : ∀ c, Text.whiteSpace c = true → p c)
    (word : ∀ c, tables.isWord c = true → p c) :
    (∀ c ∈ d.before ++ d.after, p c) ∧ ∀ c ∈ d.rewrittenBefore ++ d.rewrittenAfter, p c := by
  have opening := sign_chars valid.opening sign
  have closing := sign_chars valid.closing sign
  constructor
  · intro c member
    simp only [ListDeclaration.before,ListDeclaration.after,List.mem_append,List.mem_cons,List.not_mem_nil,
      or_false] at member
    rcases member with (part | part | part | part | part | part | part | part | part) | part | part | part
    · exact opening c part
    · exact space c (valid.lead c part)
    · exact keyword c (List.mem_append_left " = __qd_list([]) ".toList (List.mem_append_right " ".toList part))
    · exact space c (valid.gap c part)
    · exact word c (valid.name c part)
    · exact space c (valid.beforeEquals c part)
    · exact keyword c (by simp [part])
    · exact space c (valid.afterEquals c part)
    · exact keyword c (by simp [part])
    · exact keyword c (by simp [part])
    · exact space c (valid.trail c part)
    · exact closing c part
  · intro c member
    simp only [ListDeclaration.rewrittenBefore,ListDeclaration.rewrittenAfter,List.mem_append] at member
    rcases member with (part | part | part | part) | part | part
    · exact opening c part
    · exact keyword c (List.mem_append_left "= __qd_list([]) ".toList part)
    · exact word c (valid.name c part)
    · exact keyword c (List.mem_append_right " set".toList (List.mem_append_left "]) ".toList part))
    · exact keyword c (List.mem_append_right " set = __qd_list([".toList part)
    · exact closing c part

theorem all_chars {p : Char → Prop} [DecidablePred p] {text : List Char}
    (all : (text.all fun c => decide (p c)) = true) : ∀ c ∈ text, p c := by
  simpa using all

/-- No brace stands between the delimiters, before or after the replacement. -/
theorem between_braces {d : ListDeclaration} (valid : d.Valid tables) :
    (∀ c ∈ d.before ++ (d.items ++ d.after), c ≠ '{' ∧ c ≠ '}') ∧
      ∀ c ∈ d.rewrittenBefore ++ (d.items ++ d.rewrittenAfter), c ≠ '{' ∧ c ≠ '}' := by
  obtain ⟨source,written⟩ := around_chars valid (p := fun c => c ≠ '{' ∧ c ≠ '}') (by decide) (all_chars (by decide))
    (fun c inside => ⟨class_ne inside (by decide),class_ne inside (by decide)⟩)
    (fun c inside => ⟨class_ne inside (isWord_ascii (by decide)),class_ne inside (isWord_ascii (by decide))⟩)
  have items : ∀ c ∈ d.items, c ≠ '{' ∧ c ≠ '}' := fun c member =>
    ⟨class_ne (valid.items c member) (by decide),class_ne (valid.items c member) (by decide)⟩
  rw [List.forall_mem_append] at source written
  rw [List.forall_mem_append,List.forall_mem_append,List.forall_mem_append,List.forall_mem_append]
  exact ⟨⟨source.1,items,source.2⟩,written.1,items,written.2⟩

theorem inert_of_ne {c : Char} (single : c ≠ '\x27') (double : c ≠ '\x22') (escape : c ≠ '\\') : Quote.Inert c :=
  ⟨by rw [Quote.kind,if_neg single,if_neg double],escape⟩

/-- A string is open at the end of the one text exactly as at the end of the other. -/
theorem run_between {d : ListDeclaration} (valid : d.Valid tables) (state : Quote) :
    Quote.run state (d.before ++ (d.items ++ d.after)) =
      Quote.run state (d.rewrittenBefore ++ (d.items ++ d.rewrittenAfter)) := by
  obtain ⟨source,written⟩ := around_chars valid (p := Quote.Inert) (by decide) (all_chars (by decide))
    (fun c inside => inert_of_ne (class_ne inside (by decide)) (class_ne inside (by decide))
      (class_ne inside (by decide)))
    (fun c inside => inert_of_ne (class_ne inside (isWord_ascii (by decide)))
      (class_ne inside (isWord_ascii (by decide))) (class_ne inside (isWord_ascii (by decide))))
  rw [List.forall_mem_append] at source written
  rw [Quote.run_between (by simp [ListDeclaration.before]) (by simp [ListDeclaration.after]) source.1 source.2,
    Quote.run_between (by simp [ListDeclaration.rewrittenBefore]) (by simp [ListDeclaration.rewrittenAfter])
      written.1 written.2]

end Keeping

end Qdrust.Expression
