import Qdrust.Executor.Request
import Qdrust.Expression.Variables

/-! The variables a user fills in before a task of a QD HAR template can run, and the
defaults the template declares for them. -/
namespace Qdrust.Har
open Library Expression

/-- Every string a variable is looked for in. -/
def requestFields (request : QdHarRequest) : List String :=
  [request.method,request.url] ++ (request.postData.bind QdPostData.text).toList ++
    (request.headers ++ request.cookies).flatMap fun item => [item.name,item.value]

def foundIn (analysis : Analysis) (entry : QdHarEntry) : List String :=
  (requestFields entry.request).flatMap analysis.undeclaredVariables

def extractedNames (entry : QdHarEntry) : List String := entry.extractVariables.map QdExtractRule.name

/-- A name the user is asked for unless it is there already. -/
def asks (analysis : Analysis) (extracted : List String) (name : String) : Bool :=
  !analysis.knownNames.contains name && !extracted.contains name

/-- One entry: the names extracted so far, and the variables so far. -/
def visitEntry (analysis : Analysis) (state : List String × List String) (entry : QdHarEntry) : List String × List String :=
  (state.1 ++ extractedNames entry,collect (asks analysis state.1) state.2 (foundIn analysis entry))

def QdHar.variableNames (analysis : Analysis) (har : QdHar) : List String :=
  (har.entries.foldl (visitEntry analysis) ([],[])).2

/-- The defaults a document declares, in the order of the source. -/
def declared (har : QdHar) : List (String × String) :=
  har.entries.flatMap fun entry => (requestFields entry.request).flatMap declaredDefaults

def addDefault (names : List String) (defaults : List (String × String)) (found : String × String) :
    List (String × String) :=
  if names.contains found.1 && (defaults.lookup found.1).isNone then defaults ++ [found] else defaults

def QdHar.defaults (analysis : Analysis) (har : QdHar) : List (String × String) :=
  let names := har.variableNames analysis
  if names.isEmpty then [] else (declared har).foldl (addDefault names) []

/-- The body as it is sent: its text, or the fields of a multipart body without one. -/
def bodyFields (post : QdPostData) : List String :=
  match post.text with
  | some text => [text]
  | none =>
    if Executor.hasPrefix (post.mimeType.getD "") "multipart/" then
      ((post.params.bind Json.asArr).getD []).flatMap fun param =>
        [Executor.jsonText param "name",Executor.jsonText param "value"] ++
          if Executor.jsonText param "fileName" ≠ "" then [Executor.jsonText param "fileName"] else []
    else []

/-- The strings an entry reads names from: method, URL, body, headers and cookies. -/
def readFields (request : QdHarRequest) : List String :=
  [request.method,request.url] ++ request.postData.toList.flatMap bodyFields ++
    (request.headers ++ request.cookies).flatMap fun item => [item.name,item.value]

def ReadsName (analysis : Analysis) (entry : QdHarEntry) (name : String) : Prop :=
  ∃ field ∈ readFields entry.request, name ∈ analysis.undeclaredNames field

/-- Where the names stand that a document leaves undeclared, in the order of the source. -/
def appearances (analysis : Analysis) (har : QdHar) : List String :=
  har.entries.flatMap fun entry => (requestFields entry.request).flatMap analysis.appearances

/-- An entry of the document, and those before it. -/
def QdHar.At (har : QdHar) (before : List QdHarEntry) (entry : QdHarEntry) : Prop := before ++ [entry] <+: har.entries

/-- The form asks for all that a run needs, and for nothing twice or out of order; its
defaults are the first that are declared. -/
structure FormSound (analysis : Analysis) (har : QdHar) : Prop where
  asked : ∀ name before entry, name ∉ analysis.knownNames → har.At before entry → entry.checked = true →
    ReadsName analysis entry name → (∀ e ∈ before, e.checked = true → name ∉ extractedNames e) → name ∈ har.variableNames analysis
  read : ∀ name ∈ har.variableNames analysis, name ∉ analysis.knownNames ∧ ∃ entry ∈ har.entries, ReadsName analysis entry name
  once : (har.variableNames analysis).Nodup
  order : InOrder (har.variableNames analysis) (appearances analysis har)
  defaults : ∀ name, (har.defaults analysis).lookup name =
    if name ∈ har.variableNames analysis then (declared har).lookup name else none
  keys : ((har.defaults analysis).map Prod.fst).Nodup

/-- What an enabled entry reads before an enabled one extracts it, some entry reads outside
of multipart fields before any entry extracts it. -/
def Foreseen (analysis : Analysis) (har : QdHar) : Prop :=
  ∀ name before entry, name ∉ analysis.knownNames → har.At before entry → entry.checked = true →
    ReadsName analysis entry name → (∀ e ∈ before, e.checked = true → name ∉ extractedNames e) →
    ∃ before' entry', har.At before' entry' ∧ (∃ field ∈ requestFields entry'.request, name ∈ analysis.undeclaredNames field) ∧
      ∀ e ∈ before', name ∉ extractedNames e

variable {analysis : Analysis} {name : String} {har : QdHar}

theorem mem_foundIn {entry : QdHarEntry} : name ∈ foundIn analysis entry ↔
    name ∉ analysis.knownNames ∧ ∃ field ∈ requestFields entry.request, name ∈ analysis.undeclaredNames field := by
  simp only [foundIn,List.mem_flatMap,Analysis.mem_undeclaredVariables,Analysis.mem_undeclared]
  constructor
  · rintro ⟨field,there,read,unknown⟩
    exact ⟨unknown,field,there,read⟩
  · rintro ⟨unknown,field,there,read⟩
    exact ⟨field,there,read,unknown⟩

section Visit

variable {entries : List QdHarEntry}

/-- The names extracted and the variables after some entries. -/
def visited (analysis : Analysis) (entries : List QdHarEntry) : List String × List String :=
  entries.foldl (visitEntry analysis) ([],[])

theorem visited_append (entry : QdHarEntry) :
    visited analysis (entries ++ [entry]) = visitEntry analysis (visited analysis entries) entry := by
  rw [visited,List.foldl_append]
  rfl

theorem visited_extracted : name ∈ (visited analysis entries).1 ↔ ∃ e ∈ entries, name ∈ extractedNames e := by
  induction entries using List.reverseRecOn with
  | nil => simp [visited]
  | append_singleton entries entry ih =>
    rw [visited_append,visitEntry,List.mem_append,ih]
    simp only [List.mem_append,List.mem_singleton,or_and_right,exists_or,exists_eq_left]

theorem asks_iff : asks analysis (visited analysis entries).1 name = true ↔
    name ∉ analysis.knownNames ∧ ∀ e ∈ entries, name ∉ extractedNames e := by
  have extracted : name ∉ (visited analysis entries).1 ↔ ∀ e ∈ entries, name ∉ extractedNames e := by
    rw [visited_extracted]
    push Not
    rfl
  simp only [asks,Bool.and_eq_true,Bool.not_eq_true',List.contains_eq_mem,decide_eq_false_iff_not,extracted]

/-- A name is asked for where an entry reads it and none before extracts it. -/
theorem mem_visited : name ∈ (visited analysis entries).2 ↔ ∃ before entry, before ++ [entry] <+: entries ∧
    name ∈ foundIn analysis entry ∧ ∀ e ∈ before, name ∉ extractedNames e := by
  induction entries using List.reverseRecOn with
  | nil => simp [visited]
  | append_singleton entries entry ih =>
    rw [visited_append,visitEntry,mem_collect,ih,asks_iff]
    constructor
    · rintro (⟨before,e,there,found,free⟩ | ⟨found,-,free⟩)
      · exact ⟨before,e,there.trans (List.prefix_append _ _),found,free⟩
      · exact ⟨entries,entry,List.prefix_rfl,found,free⟩
    · rintro ⟨before,e,there,found,free⟩
      rcases List.prefix_concat_iff.mp there with whole | earlier
      · obtain ⟨rfl,same⟩ := List.append_inj' whole rfl
        cases same
        exact .inr ⟨found,(mem_foundIn.mp found).1,free⟩
      · exact .inl ⟨before,e,earlier,found,free⟩

def appearancesIn (analysis : Analysis) (entries : List QdHarEntry) : List String :=
  entries.flatMap fun entry => (requestFields entry.request).flatMap analysis.appearances

theorem mem_appearancesIn : name ∈ appearancesIn analysis entries ↔ ∃ e ∈ entries, name ∈ foundIn analysis e := by
  simp only [appearancesIn,foundIn,List.mem_flatMap,Analysis.mem_appearances,Analysis.mem_undeclaredVariables]

theorem collect_foundIn (wanted : String → Bool) (kept : List String) (entry : QdHarEntry) :
    collect wanted kept (foundIn analysis entry) =
      collect wanted kept ((requestFields entry.request).flatMap analysis.appearances) := by
  rw [foundIn]
  induction requestFields entry.request generalizing kept with
  | nil => rfl
  | cons field fields ih =>
    rw [List.flatMap_cons,List.flatMap_cons,collect_append,collect_append,Analysis.collect_undeclaredVariables,ih]

/-- The variables stand in the order in which they first appear. -/
theorem inOrder_visited : InOrder (visited analysis entries).2 (appearancesIn analysis entries) := by
  induction entries using List.reverseRecOn with
  | nil => exact List.Pairwise.nil
  | append_singleton entries entry ih =>
    have split : appearancesIn analysis (entries ++ [entry]) =
        appearancesIn analysis entries ++ (requestFields entry.request).flatMap analysis.appearances := by
      rw [appearancesIn,List.flatMap_append,List.flatMap_singleton]
      rfl
    rw [visited_append,visitEntry,split,collect_foundIn]
    refine inOrder_collect ih ?_ ?_
    · intro a there
      obtain ⟨before,e,earlier,found,-⟩ := mem_visited.mp there
      exact mem_appearancesIn.mpr ⟨e,earlier.subset (List.mem_append_right _ (List.mem_singleton_self _)),found⟩
    · intro a _ wants new there
      -- whatever appeared before and is not asked for has been extracted since
      obtain ⟨-,free⟩ := asks_iff.mp wants
      obtain ⟨e,member,found⟩ := mem_appearancesIn.mp there
      obtain ⟨before,after,rfl⟩ := List.append_of_mem member
      refine new (mem_visited.mpr ⟨before,e,?_,found,fun e' earlier => free e' (List.mem_append_left _ earlier)⟩)
      rw [show before ++ e :: after = before ++ [e] ++ after by simp]
      exact List.prefix_append _ _

end Visit

theorem mem_variableNames : name ∈ har.variableNames analysis ↔ ∃ before entry, har.At before entry ∧
    name ∈ foundIn analysis entry ∧ ∀ e ∈ before, name ∉ extractedNames e := mem_visited

section Defaults

variable {names : List String} {defaults found : List (String × String)}

theorem lookup_append_single {key : String} (item : String × String) :
    (defaults ++ [item]).lookup key = (defaults.lookup key).or (if key = item.1 then some item.2 else none) := by
  rw [List.lookup_append]
  congr 1
  rw [List.lookup_cons,List.lookup_nil]
  by_cases same : key = item.1
  · simp [same]
  · rw [if_neg same]
    have other : (key == item.1) = false := by simpa using same
    simp [other]

/-- The first default of each variable is kept. -/
theorem lookup_defaults {key : String} : (found.foldl (addDefault names) defaults).lookup key =
    (defaults.lookup key).or (if key ∈ names then found.lookup key else none) := by
  induction found generalizing defaults with
  | nil => simp
  | cons item found ih =>
    rw [List.foldl_cons,ih,addDefault,List.lookup_cons]
    by_cases same : key = item.1
    · subst same
      rw [beq_self_eq_true]
      cases known : defaults.lookup item.1 with
      | none =>
        by_cases named : item.1 ∈ names
        · simp [named,lookup_append_single,known]
        · simp [named,known]
      | some value => simp [known]
    · have other : (key == item.1) = false := by simpa using same
      rw [other]
      split
      · rw [lookup_append_single,if_neg same,Option.or_none]
      · rfl

theorem keys_defaults (distinct : (defaults.map Prod.fst).Nodup) :
    ((found.foldl (addDefault names) defaults).map Prod.fst).Nodup := by
  induction found generalizing defaults with
  | nil => exact distinct
  | cons item found ih =>
    rw [List.foldl_cons,addDefault]
    split
    · next added =>
      refine ih ?_
      rw [List.map_append,List.map_cons,List.map_nil]
      refine List.nodup_append.mpr ⟨distinct,List.nodup_singleton _,?_⟩
      intro key there other new same
      rw [Bool.and_eq_true,Option.isNone_iff_eq_none] at added
      obtain ⟨pair,member,rfl⟩ := List.mem_map.mp there
      have differs := List.lookup_eq_none_iff.mp added.2 pair member
      rw [← List.mem_singleton.mp new,same,bne_self_eq_false] at differs
      cases differs
    · exact ih distinct

end Defaults

theorem reads_of_found {entry : QdHarEntry} {field : String} (there : field ∈ requestFields entry.request)
    (read : name ∈ analysis.undeclaredNames field) : ReadsName analysis entry name := by
  refine ⟨field,?_,read⟩
  simp only [requestFields,readFields,List.mem_append] at there ⊢
  rcases there with (there | there) | there
  · exact .inl (.inl there)
  · obtain ⟨post,sent,text⟩ := Option.bind_eq_some_iff.mp (Option.mem_toList.mp there)
    refine .inl (.inr (List.mem_flatMap.mpr ⟨post,Option.mem_toList.mpr sent,?_⟩))
    rw [bodyFields,text]
    exact List.mem_singleton_self _
  · exact .inr there

theorem foreseen_iff (name : String) (unknown : name ∉ analysis.knownNames) : name ∈ har.variableNames analysis ↔
    ∃ before entry, har.At before entry ∧ (∃ field ∈ requestFields entry.request, name ∈ analysis.undeclaredNames field) ∧
      ∀ e ∈ before, name ∉ extractedNames e := by
  simp only [mem_variableNames,mem_foundIn,unknown,not_false_eq_true,true_and]

/-- The form asks for what a run needs exactly where disabled entries extract nothing that
is still needed and multipart fields read nothing of their own; the rest always holds. -/
theorem form_sound_iff (analysis : Analysis) (har : QdHar) : FormSound analysis har ↔ Foreseen analysis har := by
  constructor
  · intro sound name before entry unknown there enabled reads free
    exact (foreseen_iff name unknown).mp (sound.asked name before entry unknown there enabled reads free)
  · intro foreseen
    have ordered : InOrder (har.variableNames analysis) (appearances analysis har) := inOrder_visited
    constructor
    · intro name before entry unknown there enabled reads free
      exact (foreseen_iff name unknown).mpr (foreseen name before entry unknown there enabled reads free)
    · intro name asked
      obtain ⟨before,entry,there,found,-⟩ := mem_variableNames.mp asked
      obtain ⟨unknown,field,member,read⟩ := mem_foundIn.mp found
      exact ⟨unknown,entry,there.subset (List.mem_append_right _ (List.mem_singleton_self _)),reads_of_found member read⟩
    · exact ordered.nodup
    · exact ordered
    · intro name
      rw [QdHar.defaults]
      split
      · next none =>
        rw [List.isEmpty_iff.mp none]
        simp
      · exact lookup_defaults
    · rw [QdHar.defaults]
      split
      · exact List.nodup_nil
      · exact keys_defaults List.nodup_nil

/-- A request to a URL. -/
def getEntry (checked : Bool) (url : String) (extracts : List QdExtractRule) : QdHarEntry :=
  ⟨checked,none,⟨"GET",url,[],[],none⟩,[],[],extracts⟩

/-- A login that is switched off, and a request that uses its token. -/
def loginOff : List QdHarEntry :=
  [getEntry false "https://a.org/login" [⟨"token",⟨"t=(.*)","content"⟩⟩],getEntry true "\x7b\x7btoken\x7d\x7d" []]

def loginOffSource : Json :=
  .obj [("log",.obj [("version",.str "1.2"),("entries",.arr [
    .obj [("request",.obj [("method",.str "GET"),("url",.str "https://a.org/login")]),
      ("extract_variables",.arr [.obj [("name",.str "token"),("re",.str "t=(.*)"),("from",.str "content")]])],
    .obj [("checked",.bool true),("request",.obj [("method",.str "GET"),("url",.str "\x7b\x7btoken\x7d\x7d")])]])])]

/-- The analysis of a template that is one name. -/
def oneName : Analysis := ⟨[],fun source => if source = "\x7b\x7btoken\x7d\x7d" then {"token"} else ∅⟩

/-- The token of a login that is switched off is not asked for. -/
theorem disabled_extraction_hides : ∃ har, QdHar.parse loginOffSource = .ok har ∧ ¬FormSound oneName har := by
  refine ⟨⟨loginOffSource,⟨"1.2",loginOff⟩⟩,rfl,fun sound => ?_⟩
  have reads : ReadsName oneName (getEntry true "\x7b\x7btoken\x7d\x7d" []) "token" :=
    ⟨"\x7b\x7btoken\x7d\x7d",List.mem_cons_of_mem _ List.mem_cons_self,Finset.mem_singleton_self _⟩
  have asked := sound.asked "token" [getEntry false "https://a.org/login" [⟨"token",⟨"t=(.*)","content"⟩⟩]] _
    List.not_mem_nil (List.prefix_refl loginOff) rfl reads (by decide)
  have nothing : QdHar.variableNames oneName ⟨loginOffSource,⟨"1.2",loginOff⟩⟩ = [] := by decide +kernel
  rw [nothing] at asked
  cases asked

end Qdrust.Har
