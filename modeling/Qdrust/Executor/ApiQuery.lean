import Qdrust.Executor.Request
import Qdrust.Library.UrlText

/-! A form body that is merged into the URL of a plugin call, and the request that the
plugin reads from the URL. What a URL says before its query is left to the parser. -/
namespace Qdrust.Executor
open Library Utf8 Form UrlText

/-- What stands before the query of a URL. -/
structure UrlFront where
  scheme : String
  host : Option String
  path : String
deriving DecidableEq

structure ParsedUrl where
  scheme : String
  host : Option String
  path : String
  queryPairs : List (String × String)
  fragment : Option String
deriving DecidableEq

/-- Control characters, the space and the signs that are escaped in a fragment. -/
def fragmentEncodeSet (byte : UInt8) : Bool :=
  byte < 0x20 || byte == 0x7F || byte == 0x20 || byte == 0x22 || byte == 0x3C || byte == 0x3E || byte == 0x60

def textOf (pair : List Char × List Char) : String × String := (String.ofList pair.1,String.ofList pair.2)

def queryOf (text : List Char) : List (String × String) := (textPairs ((queryText text).getD [])).map textOf

def fragmentOf (text : List Char) : Option String :=
  (fragmentText text).map fun fragment => String.ofList (percentEncode fragmentEncodeSet (encode fragment))

/-- The URL Standard: the cleaned text is cut at the first `#` and the first `?` before it,
and the query is a form. Blanks behind a path are escaped, and no host has any. -/
structure Standard (front : List Char → Except Failure UrlFront) (parse : String → Except Failure ParsedUrl) : Prop where
  cut : ∀ text, parse text = (front (frontText (cleaned text.toList))).map fun before =>
    ⟨before.scheme,before.host,before.path,queryOf (cleaned text.toList),fragmentOf (cleaned text.toList)⟩
  trailing : ∀ text blanks before, front text = .ok before → blanks ≠ [] →
    (∀ c ∈ blanks, blank c = true ∧ lineBreak c = false) → front (text ++ blanks) ≠ .ok before

structure PluginRequest where
  pluginId : String
  action : String
  query : List (String × String)
deriving DecidableEq

def validPluginId (value : String) : Bool :=
  decide (value ≠ "") && decide (value.utf8ByteSize ≤ 64) &&
    value.toList.all fun c => ('a' ≤ c && c ≤ 'z') || ('0' ≤ c && c ≤ '9') || c == '-'

/-- `BTreeMap::insert`. -/
def insertPair (pair : String × String) : List (String × String) → List (String × String)
  | [] => [pair]
  | first :: rest => if first.1 = pair.1 then pair :: rest else first :: insertPair pair rest

def insertPairs (query pairs : List (String × String)) : List (String × String) :=
  pairs.foldl (fun query pair => insertPair pair query) query

/-- `PluginRequest::from_api_url`. -/
def fromApiUrl (parse : String → Except Failure ParsedUrl) (value : String) : Except Failure PluginRequest := do
  let url ← withContext "invalid api plugin URL" (parse value)
  if url.scheme ≠ "api" then .error ["plugin URL must use api scheme"]
  else match url.host with
    | none => .error ["plugin id is missing"]
    | some pluginId =>
      if validPluginId pluginId = false then .error ["invalid plugin id"]
      else
        let action := Text.trimBy (fun c => c == '/') url.path
        if action = "" then .error ["plugin action is missing"]
        else .ok ⟨pluginId,action,insertPairs [] url.queryPairs⟩

/-- The value of the last pair with the name. -/
def lastValue (pairs : List (String × String)) (name : String) : Option String := pairs.reverse.lookup name

/-- The pairs of the body stand behind those of the URL, nothing else of it is changed, and
the plugin gets the values of the body over those of the URL. -/
structure Merges (parse : String → Except Failure ParsedUrl) (url body : String) : Prop where
  parsed : parse (mergeFormIntoQuery url body) =
    (parse url).map fun parsed => { parsed with queryPairs := parsed.queryPairs ++ parseFormPairs body }
  received : fromApiUrl parse (mergeFormIntoQuery url body) =
    (fromApiUrl parse url).map fun request => { request with query := insertPairs request.query (parseFormPairs body) }
  values : ∀ request merged name, fromApiUrl parse url = .ok request →
    fromApiUrl parse (mergeFormIntoQuery url body) = .ok merged →
      merged.query.lookup name = (lastValue (parseFormPairs body) name).or (request.query.lookup name)

section Query

theorem lookup_first (first : String × String) (rest : List (String × String)) (name : String) :
    (first :: rest).lookup name = if name = first.1 then some first.2 else rest.lookup name := by
  by_cases same : name = first.1
  · rw [List.lookup_cons,if_pos same,beq_iff_eq.mpr same]
  · rw [List.lookup_cons,if_neg same,beq_eq_false_iff_ne.mpr same]

theorem lookup_insertPair (pair : String × String) (query : List (String × String)) (name : String) :
    (insertPair pair query).lookup name = if name = pair.1 then some pair.2 else query.lookup name := by
  induction query with
  | nil => exact lookup_first pair [] name
  | cons first rest ih =>
    rw [insertPair]
    by_cases replaced : first.1 = pair.1
    · rw [if_pos replaced,lookup_first,lookup_first,replaced]
      split <;> rfl
    · rw [if_neg replaced,lookup_first,lookup_first,ih]
      by_cases same : name = pair.1
      · rw [if_pos same,if_pos same,if_neg fun other => replaced (other.symm.trans same)]
      · rw [if_neg same,if_neg same]

/-- The last pair with a name decides its value. -/
theorem lookup_insertPairs (pairs query : List (String × String)) (name : String) :
    (insertPairs query pairs).lookup name = (lastValue pairs name).or (query.lookup name) := by
  induction pairs generalizing query with
  | nil => rfl
  | cons pair pairs ih =>
    change (insertPairs (insertPair pair query) pairs).lookup name = _
    rw [ih,lookup_insertPair,lastValue,lastValue,List.reverse_cons,List.lookup_append,Option.or_assoc,lookup_first]
    split <;> rfl

theorem insertPairs_append (query first second : List (String × String)) :
    insertPairs query (first ++ second) = insertPairs (insertPairs query first) second := List.foldl_append

theorem fromApiUrl_of_parse {parse : String → Except Failure ParsedUrl} {value merged : String} {pairs : List (String × String)}
    (parsed : parse merged = (parse value).map fun url => { url with queryPairs := url.queryPairs ++ pairs }) :
    fromApiUrl parse merged =
      (fromApiUrl parse value).map fun request => { request with query := insertPairs request.query pairs } := by
  unfold fromApiUrl
  rw [parsed]
  cases parse value with
  | error failure => rfl
  | ok url =>
    change (if url.scheme ≠ "api" then _ else _) = Except.map _ (if url.scheme ≠ "api" then _ else _)
    split
    · rfl
    · change (match url.host with | none => _ | some pluginId => _) = Except.map _ (match url.host with | none => _ | some pluginId => _)
      cases url.host with
      | none => rfl
      | some pluginId =>
        dsimp only
        split
        · rfl
        · split
          · rfl
          · rw [insertPairs_append]
            rfl

/-- What the plugin gets follows from how the URL is read. -/
theorem merges_iff (parse : String → Except Failure ParsedUrl) (url body : String) :
    Merges parse url body ↔ parse (mergeFormIntoQuery url body) =
      (parse url).map fun parsed => { parsed with queryPairs := parsed.queryPairs ++ parseFormPairs body } := by
  constructor
  · exact Merges.parsed
  · intro parsed
    have received := fromApiUrl_of_parse parsed
    refine ⟨parsed,received,?_⟩
    intro request merged name before after
    rw [received,before] at after
    rw [← Except.ok.inj after]
    exact lookup_insertPairs (parseFormPairs body) request.query name

end Query

section Merging

variable {front : List Char → Except Failure UrlFront} {parse : String → Except Failure ParsedUrl} {url body : String}

def encodedPairs (body : String) : List (List Char × List Char) :=
  (parseFormPairs body).map fun pair =>
    (percentEncode nonAlphanumeric (encode pair.1.toList),percentEncode nonAlphanumeric (encode pair.2.toList))

/-- What is written behind a URL. -/
def added (url body : String) : List Char :=
  (if url.toList.contains '?' then '&' else '?') :: joinFields (encodedPairs body)

theorem mergeFormIntoQuery_toList (some : parseFormPairs body ≠ []) (url : String) :
    (mergeFormIntoQuery url body).toList = url.toList ++ added url body := by
  unfold mergeFormIntoQuery added encodedPairs joinFields
  split
  · rename_i none
    exact absurd none some
  · rw [List.map_map,String.toList_append,String.toList_append,String.toList_ofList,List.append_assoc]
    split <;> rfl

theorem small_escaped : ∀ n ≤ 0x20, nonAlphanumeric (UInt8.ofNat n) = true := by
  decide

theorem hexDigit_solid : ∀ n < 16, blank (hexDigit n) = false ∧ hexDigit n ≠ '#' := by
  decide

/-- Nothing in an encoded text is a blank or one of the signs of a URL. -/
theorem encoded_free (bytes : Bytes) :
    (∀ c ∈ percentEncode nonAlphanumeric bytes, blank c = false) ∧ '#' ∉ percentEncode nonAlphanumeric bytes ∧
      '&' ∉ percentEncode nonAlphanumeric bytes ∧ '=' ∉ percentEncode nonAlphanumeric bytes := by
  refine ⟨?_,?_,?_,?_⟩
  · intro c member
    rw [Bool.eq_false_iff]
    intro small
    have bound : c.toNat ≤ 0x20 := of_decide_eq_true small
    refine percentEncode_free (small_escaped c.toNat bound) ?_ ?_ bytes member
    · rintro n digit rfl
      rw [(hexDigit_solid n digit).1] at small
      cases small
    · rintro rfl
      exact absurd small (by decide)
  · exact percentEncode_free (by decide) (fun n bound => (hexDigit_solid n bound).2) (by decide) bytes
  · exact percentEncode_free (by decide) (fun n bound => (hexDigit_plain n bound).2.2.1) (by decide) bytes
  · exact percentEncode_free (by decide) (fun n bound => (hexDigit_plain n bound).2.2.2) (by decide) bytes

theorem mem_joinFields {fields : List (List Char × List Char)} {c : Char} (member : c ∈ joinFields fields) :
    c = '&' ∨ c = '=' ∨ ∃ pair ∈ fields, c ∈ pair.1 ∨ c ∈ pair.2 := by
  induction fields with
  | nil => cases member
  | cons first rest ih =>
    have here : c ∈ field first.1 first.2 → c = '&' ∨ c = '=' ∨ ∃ pair ∈ first :: rest, c ∈ pair.1 ∨ c ∈ pair.2 := by
      intro inside
      rcases List.mem_append.mp inside with name | value
      · exact .inr (.inr ⟨first,List.mem_cons_self,.inl name⟩)
      · rcases List.mem_cons.mp value with equals | value
        · exact .inr (.inl equals)
        · exact .inr (.inr ⟨first,List.mem_cons_self,.inr value⟩)
    cases rest with
    | nil =>
      have single : joinFields [first] = field first.1 first.2 := by simp [joinFields]
      rw [single] at member
      exact here member
    | cons second rest =>
      rw [joinFields_cons,List.mem_append,List.mem_cons] at member
      rcases member with inside | amp | later
      · exact here inside
      · exact .inl amp
      · rcases ih later with amp | equals | ⟨pair,inside,found⟩
        · exact .inl amp
        · exact .inr (.inl equals)
        · exact .inr (.inr ⟨pair,List.mem_cons_of_mem _ inside,found⟩)

theorem mem_added {c : Char} (member : c ∈ added url body) : blank c = false ∧ c ≠ '#' := by
  rcases List.mem_cons.mp member with rfl | inside
  · split <;> exact ⟨rfl,by decide⟩
  · rcases mem_joinFields inside with rfl | rfl | ⟨pair,found,side⟩
    · exact ⟨rfl,by decide⟩
    · exact ⟨rfl,by decide⟩
    · obtain ⟨original,_,rfl⟩ := List.mem_map.mp found
      have free := fun text : String => encoded_free (encode text.toList)
      rcases side with name | value
      · exact ⟨(free _).1 c name,fun sign => (free _).2.1 (sign ▸ name)⟩
      · exact ⟨(free _).1 c value,fun sign => (free _).2.1 (sign ▸ value)⟩

theorem added_solid (url body : String) : Solid (added url body) :=
  Solid.of_forall (List.cons_ne_nil _ _) fun _ member => (mem_added member).1

theorem textOf_injective : Function.Injective textOf := by
  intro left right same
  obtain ⟨names,values⟩ := Prod.mk.inj same
  exact Prod.ext (String.ofList_injective names) (String.ofList_injective values)

/-- The fields that are written are read as the pairs of the body. -/
theorem textPairs_encoded (body : String) :
    (textPairs (joinFields (encodedPairs body))).map textOf = parseFormPairs body := by
  have free : ∀ pair ∈ encodedPairs body, '&' ∉ pair.1 ∧ '&' ∉ pair.2 ∧ '=' ∉ pair.1 := by
    intro pair member
    obtain ⟨original,_,rfl⟩ := List.mem_map.mp member
    exact ⟨(encoded_free _).2.2.1,(encoded_free _).2.2.1,(encoded_free _).2.2.2⟩
  have decoded : ∀ text, decodeComponent (percentEncode nonAlphanumeric (encode text)) = encode text := fun text =>
    decodeComponent_percentEncode (by decide) (by decide) (encode text)
  rw [textPairs,formPairs_joinFields free,encodedPairs,List.map_map,List.map_map,List.map_map]
  conv_rhs => rw [← List.map_id (parseFormPairs body)]
  apply List.map_congr_left
  intro pair _
  simp only [Function.comp_apply,textOf,decoded,lossy_encode,String.ofList_toList,id]

theorem cleaned_merge (some : parseFormPairs body ≠ []) (url : String) :
    cleaned (mergeFormIntoQuery url body).toList =
      cleaned url.toList ++ (trailingBlanks url.toList ++ added url body) := by
  rw [mergeFormIntoQuery_toList some,cleaned_append (added_solid url body),List.append_assoc]

theorem free_trailing {stop : Char} (solid : blank stop = false) (text : List Char) : stop ∉ trailingBlanks text := by
  intro member
  rw [(mem_trailingBlanks member).1] at solid
  cases solid

theorem main_cleaned {text : List Char} (whole : '#' ∉ text) :
    mainText (cleaned text) = cleaned text ∧ fragmentText (cleaned text) = none := by
  have free : '#' ∉ cleaned text := fun member => whole ((mem_cleaned (by decide) text).mp member)
  rw [mainText,fragmentText,cutAt_free free]
  exact ⟨rfl,rfl⟩

theorem main_merge (some : parseFormPairs body ≠ []) (whole : '#' ∉ url.toList) :
    mainText (cleaned (mergeFormIntoQuery url body).toList) =
        cleaned url.toList ++ (trailingBlanks url.toList ++ added url body) ∧
      fragmentText (cleaned (mergeFormIntoQuery url body).toList) = none := by
  have free : '#' ∉ cleaned url.toList ++ (trailingBlanks url.toList ++ added url body) := by
    rw [List.mem_append,List.mem_append,not_or,not_or]
    exact ⟨fun member => whole ((mem_cleaned (by decide) _).mp member),free_trailing (by decide) _,
      fun member => (mem_added member).2 rfl⟩
  rw [mainText,fragmentText,cleaned_merge some,cutAt_free free]
  exact ⟨rfl,rfl⟩

/-- Behind a query, blanks and all, stand the fields of the body. -/
theorem query_extended (some : parseFormPairs body ≠ []) (whole : '#' ∉ url.toList) (queried : '?' ∈ url.toList) :
    frontText (cleaned (mergeFormIntoQuery url body).toList) = frontText (cleaned url.toList) ∧
      ∃ query, queryText (cleaned url.toList) = .some query ∧
        queryOf (cleaned (mergeFormIntoQuery url body).toList) =
          (textPairs (query ++ trailingBlanks url.toList)).map textOf ++ parseFormPairs body := by
  obtain ⟨query,found⟩ := cutAt_mem ((mem_cleaned (by decide) _).mpr queried)
  have written : added url body = '&' :: joinFields (encodedPairs body) := by
    rw [added,if_pos (List.contains_iff_mem.mpr queried)]
  have main := main_merge some whole
  have before := main_cleaned whole
  refine ⟨?_,query,?_,?_⟩
  · rw [frontText,frontText,main.1,before.1,cutAt_append_found found]
  · rw [queryText,before.1,found]
  · rw [queryOf,queryText,main.1,cutAt_append_found found,written,← List.append_assoc]
    change (textPairs (query ++ trailingBlanks url.toList ++ '&' :: joinFields (encodedPairs body))).map textOf = _
    rw [textPairs_append,List.map_append,textPairs_encoded]

/-- Behind a URL without a query, blanks and all, stands a query of the fields of the body. -/
theorem query_begun (some : parseFormPairs body ≠ []) (whole : '#' ∉ url.toList) (plain : '?' ∉ url.toList) :
    frontText (cleaned url.toList) = cleaned url.toList ∧ queryText (cleaned url.toList) = none ∧
      frontText (cleaned (mergeFormIntoQuery url body).toList) = cleaned url.toList ++ trailingBlanks url.toList ∧
        queryOf (cleaned (mergeFormIntoQuery url body).toList) = parseFormPairs body := by
  have free : '?' ∉ cleaned url.toList := fun member => plain ((mem_cleaned (by decide) _).mp member)
  have farther : '?' ∉ cleaned url.toList ++ trailingBlanks url.toList := by
    rw [List.mem_append,not_or]
    exact ⟨free,free_trailing (by decide) _⟩
  have written : added url body = '?' :: joinFields (encodedPairs body) := by
    rw [added,if_neg fun found => plain (List.contains_iff_mem.mp found)]
  have main := main_merge some whole
  have before := main_cleaned whole
  have cut : cutAt '?' (mainText (cleaned (mergeFormIntoQuery url body).toList)) =
      (cleaned url.toList ++ trailingBlanks url.toList,.some (joinFields (encodedPairs body))) := by
    rw [main.1,← List.append_assoc,cutAt_append_free farther,written,cutAt,if_pos rfl,List.append_nil]
  refine ⟨?_,?_,?_,?_⟩
  · rw [frontText,before.1,cutAt_free free]
  · rw [queryText,before.1,cutAt_free free]
  · rw [frontText,cut]
  · rw [queryOf,queryText,cut]
    exact textPairs_encoded body

theorem percentEncode_append (set : UInt8 → Bool) (left right : Bytes) :
    percentEncode set (left ++ right) = percentEncode set left ++ percentEncode set right := List.flatMap_append

theorem percentEncode_ne_nil {set : UInt8 → Bool} {bytes : Bytes} (some : bytes ≠ []) : percentEncode set bytes ≠ [] := by
  obtain ⟨byte,rest,rfl⟩ := List.exists_cons_of_ne_nil some
  rw [percentEncode,List.flatMap_cons]
  unfold percentEncodeByte
  split <;> exact List.cons_ne_nil _ _

/-- Behind a fragment the fields of the body are part of it. -/
theorem fragment_changed (some : parseFormPairs body ≠ []) (marked : '#' ∈ url.toList) :
    fragmentOf (cleaned (mergeFormIntoQuery url body).toList) ≠ fragmentOf (cleaned url.toList) := by
  obtain ⟨fragment,found⟩ := cutAt_mem ((mem_cleaned (by decide) _).mpr marked)
  rw [fragmentOf,fragmentOf,fragmentText,fragmentText,cleaned_merge some,cutAt_append_found found,found]
  intro same
  have texts := String.ofList_injective (Option.some.inj same)
  rw [encode_append,percentEncode_append,List.append_right_eq_self] at texts
  refine percentEncode_ne_nil ?_ texts
  rw [encode_append,added,encode_cons]
  intro none
  exact encodeChar_ne_nil _ (List.append_eq_nil_iff.mp (List.append_eq_nil_iff.mp none).2).1

theorem read_iff (result : Except Failure UrlFront) (start : UrlFront) (query expected : List (String × String))
    (fragment kept : Option String) :
    (result.map fun before => (⟨before.scheme,before.host,before.path,query,fragment⟩ : ParsedUrl)) =
        .ok ⟨start.scheme,start.host,start.path,expected,kept⟩ ↔
      result = .ok start ∧ query = expected ∧ fragment = kept := by
  cases result with
  | error failure => exact iff_of_false (fun same => by cases same) fun parts => by cases parts.1
  | ok before =>
    obtain ⟨scheme,host,path⟩ := before
    obtain ⟨startScheme,startHost,startPath⟩ := start
    simp only [Except.map,Except.ok.injEq,ParsedUrl.mk.injEq,UrlFront.mk.injEq]
    tauto

/-- A body is merged as it should be exactly when it has no pairs, or the URL has no fragment
and nothing that is dropped only because it stands at the end. -/
theorem merged_iff (standard : Standard front parse) {parsed : ParsedUrl} (read : parse url = .ok parsed) :
    Merges parse url body ↔
      parseFormPairs body = [] ∨ ('#' ∉ url.toList ∧ trailingBlanks url.toList = []) := by
  rw [merges_iff]
  by_cases none : parseFormPairs body = []
  · have same : mergeFormIntoQuery url body = url := by
      rw [mergeFormIntoQuery,none]
    rw [same,none,read]
    exact iff_of_true (by simp [Except.map]) (.inl rfl)
  have cut := standard.cut url
  rw [read] at cut
  obtain ⟨start,before⟩ : ∃ start, front (frontText (cleaned url.toList)) = .ok start := by
    cases found : front (frontText (cleaned url.toList)) with
    | error failure =>
      rw [found] at cut
      cases cut
    | ok start => exact ⟨start,rfl⟩
  rw [before] at cut
  rw [read,standard.cut,Except.ok.inj cut]
  refine (read_iff _ start _ _ _ _).trans ?_
  rw [or_iff_right none]
  by_cases marked : '#' ∈ url.toList
  · exact iff_of_false (fun kept => fragment_changed none marked kept.2.2) fun holds => holds.1 marked
  have fragments : fragmentOf (cleaned (mergeFormIntoQuery url body).toList) = fragmentOf (cleaned url.toList) := by
    rw [fragmentOf,fragmentOf,(main_merge none marked).2,(main_cleaned marked).2]
  by_cases queried : '?' ∈ url.toList
  · obtain ⟨fronts,query,found,extended⟩ := query_extended none marked queried
    have own : queryOf (cleaned url.toList) = (textPairs query).map textOf := by
      rw [queryOf,found]
      rfl
    rw [fronts,extended,own,List.append_cancel_right_eq]
    constructor
    · rintro ⟨_,same,_⟩
      refine ⟨marked,?_⟩
      by_contra blanks
      have texts := (List.map_injective_iff.mpr textOf_injective) same
      exact textPairs_blanks blanks (fun c member => (mem_trailingBlanks member).1) query texts
    · rintro ⟨_,clean⟩
      rw [clean,List.append_nil]
      exact ⟨before,rfl,fragments⟩
  · obtain ⟨whole,empty,fronts,begun⟩ := query_begun none marked queried
    have own : queryOf (cleaned url.toList) = [] := by
      rw [queryOf,empty]
      rfl
    rw [fronts,begun,own,List.nil_append]
    constructor
    · rintro ⟨same,_⟩
      refine ⟨marked,?_⟩
      by_contra blanks
      rw [whole] at before
      exact standard.trailing _ _ start before blanks (fun c member => mem_trailingBlanks member) same
    · rintro ⟨_,clean⟩
      rw [whole] at before
      rw [clean,List.append_nil]
      exact ⟨before,rfl,fragments⟩

end Merging

section Sample

/-- A host and a path. -/
def sampleRest (rest : List Char) : Except Failure UrlFront :=
  if (cutAt '/' rest).1.any blank then .error ["invalid international domain name"]
  else .ok ⟨"api",some (String.ofList (cutAt '/' rest).1),
    String.ofList (percentEncode fragmentEncodeSet (encode (((cutAt '/' rest).2.map fun path => '/' :: path).getD [])))⟩

/-- How URLs of plugins are read, whose hosts and paths are plain. -/
def sampleFront : List Char → Except Failure UrlFront
  | 'a' :: 'p' :: 'i' :: ':' :: '/' :: '/' :: rest => sampleRest rest
  | _ => .error ["relative URL without a base"]

def sampleParse (text : String) : Except Failure ParsedUrl :=
  (sampleFront (frontText (cleaned text.toList))).map fun before =>
    ⟨before.scheme,before.host,before.path,queryOf (cleaned text.toList),fragmentOf (cleaned text.toList)⟩

theorem sampleRest_trailing {rest blanks : List Char} {before : UrlFront} (read : sampleRest rest = .ok before)
    (some : blanks ≠ []) (small : ∀ c ∈ blanks, blank c = true ∧ lineBreak c = false) :
    sampleRest (rest ++ blanks) ≠ .ok before := by
  intro same
  obtain ⟨c,others,rfl⟩ := List.exists_cons_of_ne_nil some
  cases found : (cutAt '/' rest).2 with
  | none =>
    have free : '/' ∉ rest := fun member => by
      obtain ⟨path,other⟩ := cutAt_mem member
      rw [found] at other
      cases other
    have plain : '/' ∉ c :: others := fun member => absurd (small '/' member).1 (by decide)
    have bad : (cutAt '/' (rest ++ c :: others)).1.any blank = true := by
      rw [cutAt_append_free free,cutAt_free plain,List.any_append,List.any_cons,(small c List.mem_cons_self).1,
        Bool.true_or,Bool.or_true]
    rw [sampleRest,if_pos bad] at same
    cases same
  | some path =>
    rw [sampleRest,cutAt_append_found found] at same
    rw [sampleRest,found] at read
    split at read
    · cases read
    · rename_i clean
      rw [if_neg clean] at same
      have texts := String.ofList_injective (congrArg UrlFront.path (Except.ok.inj (read.trans same.symm)))
      simp only [Option.map_some,Option.getD_some] at texts
      rw [← List.cons_append,encode_append,percentEncode_append,eq_comm,List.append_right_eq_self] at texts
      refine percentEncode_ne_nil ?_ texts
      rw [encode_cons]
      exact fun none => encodeChar_ne_nil c (List.append_eq_nil_iff.mp none).1

theorem sample_standard : Standard sampleFront sampleParse := by
  refine ⟨fun _ => rfl,?_⟩
  intro text blanks before read some small
  unfold sampleFront at read
  split at read
  · exact sampleRest_trailing read some small
  · cases read

theorem merged_behind_query : Merges sampleParse "api://util/x?a=1&b=2" "b=3&c=%26" := by
  have read : sampleParse "api://util/x?a=1&b=2" =
      .ok ⟨"api",some "util","/x",[("a","1"),("b","2")],none⟩ := by
    decide +kernel
  exact (merged_iff sample_standard read).mpr (.inr ⟨by decide,by decide⟩)

/-- The pair becomes part of the fragment, and of the value before the blank. -/
theorem merged_into_fragment :
    ¬Merges sampleParse "api://util/x?a=1#f" "b=2" ∧ ¬Merges sampleParse "api://util/x?a=1 " "b=2" := by
  rw [merges_iff,merges_iff]
  decide +kernel

end Sample

end Qdrust.Executor
