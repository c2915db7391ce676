import Qdrust.Har.Reading
import Qdrust.Library.FormLoss

/-! Bodies under normalization: what reaches a normalized entry, and what a form body made of a
parameter list decodes to. -/
namespace Qdrust.Har
open Library Utf8 Form

section Again

theorem modify_self {fields : Fields} {name : String} {change : Json → Json}
    (same : ∀ field ∈ fields, field.1 = name → change field.2 = field.2) : fields.modify name change = fields := by
  have each : fields.map (fun field => if field.1 == name then (field.1,change field.2) else field) = fields.map id := by
    refine List.map_congr_left fun field inside => ?_
    split
    · next here => rw [same field inside (eq_of_beq here)]; rfl
    · rfl
  exact each.trans (List.map_id fields)

theorem modify_modify (fields : Fields) (name : String) (change change' : Json → Json) :
    (fields.modify name change).modify name change' = fields.modify name fun json => change' (change json) := by
  simp only [Fields.modify,List.map_map]
  refine List.map_congr_left fun field _ => ?_
  by_cases here : (field.1 == name) = true
  · simp only [Function.comp_apply,if_pos here]
  · simp only [Function.comp_apply,if_neg here]

theorem insertNew_again {fields : Fields} {name : String} (there : fields.containsKey name = true) (value : Json) :
    fields.insertNew name value = fields := if_pos there

theorem insertSome_again {fields : Fields} {name : String} {value : Option Json}
    (there : value.isSome = true → fields.containsKey name = true) : fields.insertSome name value = fields := by
  cases value with
  | none => rfl
  | some json => exact insertNew_again (there rfl) json

theorem remove_again {fields : Fields} {name : String} (gone : fields.get name = none) : fields.remove name = fields := by
  refine List.filter_eq_self.mpr fun field inside => ?_
  have other := List.find?_eq_none.mp (Option.map_eq_none_iff.mp gone) field inside
  rw [bne,Bool.eq_false_iff.mpr other]
  rfl

theorem enable_enable (json : Json) : enable (enable json) = enable json := by
  cases json with
  | obj fields =>
    have there : Fields.containsKey (Fields.insertNew fields "checked" (.bool true)) "checked" = true := by
      rw [Fields.containsKey,Fields.get_insertNew,if_pos rfl]
      rfl
    exact congrArg Json.obj (insertNew_again there _)
  | null | bool | num | str | arr => rfl

theorem enableAll_enableAll (json : Json) : enableAll (enableAll json) = enableAll json := by
  cases json with
  | arr items =>
    refine congrArg Json.arr ?_
    change (items.map enable).map enable = items.map enable
    rw [List.map_map]
    exact List.map_congr_left fun item _ => enable_enable item
  | null | bool | num | str | obj => rfl

/-- Headers and cookies as `enableAll` leaves them. -/
def Enabled (fields : Fields) : Prop := ∀ field ∈ fields, field.1 = "headers" ∨ field.1 = "cookies" → enableAll field.2 = field.2

theorem Enabled.self {fields : Fields} (enabled : Enabled fields) :
    (fields.modify "headers" enableAll).modify "cookies" enableAll = fields := by
  rw [modify_self fun field inside same => enabled field inside (.inl same),
    modify_self fun field inside same => enabled field inside (.inr same)]

theorem enabled_rows (fields : Fields) : Enabled ((fields.modify "headers" enableAll).modify "cookies" enableAll) := by
  intro field inside rows
  obtain ⟨middle,there,rfl⟩ := List.mem_map.mp inside
  obtain ⟨first,_,rfl⟩ := List.mem_map.mp there
  by_cases headers : (first.1 == "headers") = true
  · have other : (first.1 == "cookies") = false := by
      rw [eq_of_beq headers]
      decide
    simp only [if_pos headers,other,Bool.false_eq_true,if_false]
    exact enableAll_enableAll first.2
  · simp only [if_neg headers] at rows ⊢
    by_cases cookies : (first.1 == "cookies") = true
    · simp only [if_pos cookies]
      exact enableAll_enableAll first.2
    · simp only [if_neg cookies] at rows
      rcases rows with same | same
      · exact absurd (beq_iff_eq.mpr same) headers
      · exact absurd (beq_iff_eq.mpr same) cookies

theorem normalizePost_cases (request : Fields) : normalizePost request = request ∨ normalizePost request =
    (request.insertNew "postData" (.obj [])).modify "postData" (completePost (request.text "data") (request.text "mimeType")) := by
  by_cases idle : ((request.text "data").isNone && (request.text "mimeType").isNone && !hasParams request) = true
  · exact .inl (if_pos idle)
  · exact .inr (if_neg idle)

theorem Enabled.normalizePost {fields : Fields} (enabled : Enabled fields) : Enabled (Har.normalizePost fields) := by
  rcases normalizePost_cases fields with same | made
  · rw [same]
    exact enabled
  · rw [made]
    intro field inside rows
    obtain ⟨first,there,rfl⟩ := List.mem_map.mp inside
    by_cases post : (first.1 == "postData") = true
    · simp only [if_pos post] at rows
      rw [eq_of_beq post] at rows
      exact absurd rows (by decide)
    · simp only [if_neg post] at rows ⊢
      unfold Fields.insertNew at there
      split at there
      · exact enabled first there rows
      · rcases List.mem_append.mp there with old | new
        · exact enabled first old rows
        · rw [List.mem_singleton.mp new] at post
          exact absurd rfl post

theorem completed_completed (data mimeType : Option String) (post : Fields) :
    completed data mimeType (completed data mimeType post) = completed data mimeType post := by
  have text : data.isSome = true ∨ (post.list "params").isSome = true →
      (completed data mimeType post).containsKey "text" = true := by
    intro either
    rw [Fields.containsKey,completed_text,Option.isSome_or,Option.isSome_map,Option.isSome_or,Option.isSome_map]
    rcases either with own | params
    · rw [own,Bool.true_or,Bool.or_true]
    · rw [params,Bool.or_true,Bool.or_true]
  have mime : mimeType.isSome = true → (completed data mimeType post).containsKey "mimeType" = true := by
    intro some
    rw [Fields.containsKey,completed_mimeType,Option.isSome_or,Option.isSome_map,some,Bool.or_true]
  have params : (completed data mimeType post).list "params" = post.list "params" := by
    rw [Fields.list,completed_params]
    rfl
  have first : insertText (completed data mimeType post) "text" data = completed data mimeType post :=
    insertSome_again fun some => text (.inl (by rw [← Option.isSome_map]; exact some))
  have second : insertText (completed data mimeType post) "mimeType" mimeType = completed data mimeType post :=
    insertSome_again fun some => mime (by rw [← Option.isSome_map]; exact some)
  have third : insertForm (completed data mimeType post) = completed data mimeType post := by
    refine insertSome_again fun some => text (.inr ?_)
    rw [Option.isSome_map,params] at some
    exact some
  conv_lhs => rw [completed]
  rw [first,second,third]

theorem completePost_completePost (data mimeType : Option String) (json : Json) :
    completePost data mimeType (completePost data mimeType json) = completePost data mimeType json := by
  cases json with
  | obj post => exact congrArg Json.obj (completed_completed data mimeType post)
  | null | bool | num | str | arr => rfl

theorem normalizePost_normalizePost (request : Fields) : normalizePost (normalizePost request) = normalizePost request := by
  have data : (normalizePost request).text "data" = request.text "data" := by
    rw [Fields.text,normalizePost_get request (by decide)]
    rfl
  have mime : (normalizePost request).text "mimeType" = request.text "mimeType" := by
    rw [Fields.text,normalizePost_get request (by decide)]
    rfl
  rcases normalizePost_cases request with same | made
  · rw [same,same]
  · have there : (normalizePost request).containsKey "postData" = true := by
      rw [made,Fields.containsKey,Fields.get_modify,if_pos rfl,Option.isSome_map,Fields.get_insertNew,if_pos rfl]
      rfl
    rcases normalizePost_cases (normalizePost request) with same | again
    · exact same
    · rw [again,insertNew_again there,data,mime,made,modify_modify]
      simp only [completePost_completePost]

theorem normalizeRequest_normalizeRequest (json : Json) : normalizeRequest (normalizeRequest json) = normalizeRequest json := by
  cases json with
  | obj request =>
    refine congrArg Json.obj ?_
    change normalizePost (((normalizedRequest request).modify "headers" enableAll).modify "cookies" enableAll) = normalizedRequest request
    rw [normalizedRequest,((enabled_rows request).normalizePost).self,normalizePost_normalizePost]
  | null | bool | num | str | arr => rfl

theorem hoistRules_gone (entry : Fields) : (hoistRules entry).get "rule" = none := by
  unfold hoistRules
  cases entry.object "rule" with
  | none => rw [Fields.get_remove,if_pos rfl]
  | some rule => simp [ruleKeys,hoist,Fields.get_insertSome,Fields.get_remove]

theorem normalizedEntry_normalizedEntry (entry : Fields) : normalizedEntry (normalizedEntry entry) = normalizedEntry entry := by
  have checked : (normalizedEntry entry).containsKey "checked" = true := by
    rw [Fields.containsKey,normalizedEntry_get entry (by decide) (by decide) (by decide),Fields.get_insertNew,if_pos rfl]
    rfl
  have gone : (normalizedEntry entry).get "rule" = none := by
    rw [normalizedEntry,Fields.get_modify,if_neg (by decide),hoistRules_gone]
  have hoisted : hoistRules (normalizedEntry entry) = normalizedEntry entry := by
    have nothing : (normalizedEntry entry).object "rule" = none := by
      rw [Fields.object,gone]
      rfl
    rw [hoistRules,nothing]
    exact remove_again gone
  conv_lhs => rw [normalizedEntry]
  rw [insertNew_again checked,hoisted,normalizedEntry,modify_modify]
  simp only [normalizeRequest_normalizeRequest]

theorem normalizeEntry_normalizeEntry (json : Json) : normalizeEntry (normalizeEntry json) = normalizeEntry json := by
  cases json with
  | obj entry => exact congrArg Json.obj (normalizedEntry_normalizedEntry entry)
  | null | bool | num | str | arr => rfl

theorem qdEntries_normalized {raw : Json} {entries : List Json} (read : qdEntries raw = some entries) :
    qdEntries (normalizeQdDocument raw) = some (entries.map normalizeEntry) := by
  rw [normalizeQdDocument,read]
  rfl

/-- Normalizing a document twice is normalizing it once. -/
theorem normalize_normalize (raw : Json) : normalizeQdDocument (normalizeQdDocument raw) = normalizeQdDocument raw := by
  cases read : qdEntries raw with
  | none =>
    have same : normalizeQdDocument raw = raw := by rw [normalizeQdDocument,read]
    rw [same,same]
  | some entries =>
    conv_lhs => rw [normalizeQdDocument,qdEntries_normalized read]
    rw [normalizeQdDocument,read]
    dsimp only
    rw [List.map_map]
    refine congrArg (harLog "qdrust" "1.0") (List.map_congr_left fun entry _ => ?_)
    exact normalizeEntry_normalizeEntry entry

end Again

section Bodies

/-- The body text of a request. -/
def bodyText (request : Fields) : Option Json := (request.object "postData").bind fun post => post.get "text"

/-- A text under `postData` stays, and one under `data` comes there where there is none. -/
structure Kept (request request' : Fields) : Prop where
  post : ∀ text, bodyText request = some (.str text) → bodyText request' = some (.str text)
  data : ∀ text, request.text "data" = some text → (∀ own, bodyText request ≠ some (.str own)) → bodyText request' = some (.str text)

/-- With a text under `data`, the entry has no `postData`, or an object whose `text` is one if it is there. -/
def Mergeable (request : Fields) : Prop :=
  (request.text "data").isSome = true → request.get "postData" = none ∨
    ∃ post, request.get "postData" = some (.obj post) ∧ (Fields.get post "text" = none ∨ ∃ text, Fields.get post "text" = some (.str text))

/-- The named parameters of a list, with their values. -/
def listed (params : List Json) : List (String × String) :=
  params.filterMap fun param => do
    let object ← param.asObj
    let name ← object.text "name"
    return (name,(object.text "value").getD "")

/-- The pairs of a body as the texts they decode to. -/
def decodeForm (body : String) : List (String × String) :=
  (formPairs body.toList).map fun pair => (String.ofList (lossy pair.1),String.ofList (lossy pair.2))

/-- A name that needs no encoding. -/
structure PlainName (name : List Char) : Prop where
  separator : '&' ∉ name
  equals : '=' ∉ name
  plus : '+' ∉ name
  escape : hasEscape (encode name) = false

theorem bodyText_normalized (request : Fields) :
    bodyText (normalizedRequest request) =
      match request.get "postData" with
      | none => (request.text "data").map .str
      | some (.obj post) => (Fields.get post "text").or (((request.text "data").or ((Fields.list post "params").map formBody)).map .str)
      | some _ => none := by
  have other {name : String} (notHeaders : name ≠ "headers") (notCookies : name ≠ "cookies") :
      ((request.modify "headers" enableAll).modify "cookies" enableAll).get name = request.get name := by
    rw [Fields.get_modify,if_neg notCookies,Fields.get_modify,if_neg notHeaders]
  have data : ((request.modify "headers" enableAll).modify "cookies" enableAll).text "data" = request.text "data" :=
    congrArg (Option.bind · Json.asStr) (other (by decide) (by decide))
  rw [bodyText,Fields.object,normalizedRequest,normalizePost_postData,other (by decide) (by decide),data]
  cases request.get "postData" with
  | none =>
    dsimp only
    split
    · next idle =>
      rw [Option.isNone_iff_eq_none.mp (Bool.and_eq_true_iff.mp idle).1]
      rfl
    · change Fields.get (completed _ _ []) "text" = _
      rw [completed_text]
      cases request.text "data" <;> rfl
  | some post =>
    cases post with
    | obj post =>
      change Fields.get (completed _ _ post) "text" = _
      rw [completed_text]
    | null | bool | num | str | arr => rfl

/-- Nothing is lost exactly where `data` can be merged. -/
theorem kept_iff (request : Fields) : Kept request (normalizedRequest request) ↔ Mergeable request := by
  have after := bodyText_normalized request
  constructor
  · intro kept some
    obtain ⟨text,data⟩ := Option.isSome_iff_exists.mp some
    have reaches := kept.data text data
    rw [after] at reaches
    cases written : request.get "postData" with
    | none => exact .inl rfl
    | some post =>
      rw [written] at reaches
      cases post with
      | obj post =>
        refine .inr ⟨post,rfl,?_⟩
        have own : bodyText request = Fields.get post "text" := by
          rw [bodyText,Fields.object,written]
          rfl
        cases inside : Fields.get post "text" with
        | none => exact .inl rfl
        | some json =>
          rw [own,inside] at reaches
          dsimp only at reaches
          rw [inside,Option.some_or] at reaches
          by_cases isText : ∃ own, json = .str own
          · exact .inr (isText.imp fun _ same => congrArg Option.some same)
          · have same := reaches fun own same => isText ⟨own,Option.some.inj same⟩
            exact absurd ⟨text,Option.some.inj same⟩ isText
      | null | bool | num | str | arr =>
        have nothing : bodyText request = none := by
          rw [bodyText,Fields.object,written]
          rfl
        have same := reaches fun own same => by
          rw [nothing] at same
          cases same
        cases same
  · intro mergeable
    constructor
    · intro text own
      obtain ⟨post,object,inside⟩ := Option.bind_eq_some_iff.mp own
      obtain ⟨json,written,is⟩ := Option.bind_eq_some_iff.mp object
      cases json with
      | obj fields =>
        cases is
        rw [after,written]
        dsimp only
        rw [inside]
        rfl
      | null | bool | num | str | arr => cases is
    · intro text data without
      rw [after]
      rcases mergeable (by rw [data]; rfl) with absent | ⟨post,written,inside⟩
      · rw [absent,data]
        rfl
      · have own : bodyText request = Fields.get post "text" := by
          rw [bodyText,Fields.object,written]
          rfl
        rw [written]
        dsimp only
        rcases inside with none | ⟨text',inside⟩
        · rw [none,data]
          rfl
        · exact absurd (own.trans inside) (without text')

section Encoding

def escaped (byte : UInt8) : Bool := !unreserved byte.toNat

theorem formUrlEncode_toList (value : String) : (formUrlEncode value).toList = percentEncode escaped (encode value.toList) := by
  have bytes : value.toUTF8.data.toList = encode value.toList := by
    have same : value.toUTF8 = (encode value.toList).toByteArray := by
      conv_lhs => rw [← @String.ofList_toList value]
      rfl
    rw [same,List.data_toByteArray,List.toList_toArray]
  rw [formUrlEncode,String.toList_ofList,bytes,percentEncode]
  refine List.flatMap_congr fun byte _ => ?_
  have digits : ∀ n < 16, "0123456789ABCDEF".toList.getD n '0' = hexDigit n := by decide
  have size := byte.toNat_lt
  rw [percentEncodeByte,escaped]
  by_cases plain : unreserved byte.toNat = true
  · have low : byte < 128 := by
      rw [UInt8.lt_iff_toNat_lt]
      simp only [unreserved,Bool.or_eq_true,Bool.and_eq_true,decide_eq_true_eq,beq_iff_eq] at plain
      change byte.toNat < 128
      omega
    rw [if_pos plain,plain,if_pos ⟨low,rfl⟩]
  · rw [if_neg plain,if_neg fun both => plain (by simpa using both.2),percent,digits _ (by omega),digits _ (by omega)]

theorem formBody_toList (params : List Json) :
    (formBody params).toList = joinFields ((listed params).map fun pair => (pair.1.toList,(formUrlEncode pair.2).toList)) := by
  have fields : params.filterMap formField = (listed params).map fun pair => pair.1 ++ "=" ++ formUrlEncode pair.2 := by
    rw [listed,List.map_filterMap]
    refine List.filterMap_congr fun param _ => ?_
    unfold formField
    cases param.asObj with
    | none => rfl
    | some object =>
      change ((object.text "name").bind fun name => _) = ((object.text "name").bind fun name => _).map _
      cases object.text "name" <;> rfl
  have each : (fun pair : String × String => (pair.1 ++ "=" ++ formUrlEncode pair.2).toList) =
      fun pair => field pair.1.toList (formUrlEncode pair.2).toList := by
    funext pair
    rw [String.toList_append,String.toList_append,List.append_assoc]
    rfl
  rw [formBody,fields,String.toList_intercalate,joinFields,List.map_map,List.map_map]
  exact congrArg (fun write => ['&'].intercalate ((listed params).map write)) each

theorem encoded_free (value : String) : '&' ∉ (formUrlEncode value).toList := by
  rw [formUrlEncode_toList]
  exact percentEncode_free (by decide) (fun n bound => (hexDigit_plain n bound).2.2.1) (by decide) _

theorem encoded_value (value : String) : lossy (decodeComponent (formUrlEncode value).toList) = value.toList := by
  rw [formUrlEncode_toList,decodeComponent_percentEncode (by decide) (by decide),lossy_encode]

/-- Something stands beside the separators. -/
theorem formParts_some {text : List Char} (equals : '=' ∈ text) : formParts text ≠ [] := by
  induction size : text.length using Nat.strongRecOn generalizing text with
  | ind n ih =>
  by_cases separated : '&' ∈ text
  · obtain ⟨left,right,rfl,clean⟩ := List.eq_append_cons_of_mem separated
    rw [List.length_append,List.length_cons] at size
    rw [formParts_append]
    rcases List.mem_append.mp equals with front | back
    · exact List.append_ne_nil_of_left_ne_nil (ih left.length (by omega) front rfl) _
    · have inside := (List.mem_cons.mp back).resolve_left (by decide)
      exact List.append_ne_nil_of_right_ne_nil _ (ih right.length (by omega) inside rfl)
  · rw [formParts_single separated]
    cases text with
    | nil => cases equals
    | cons c text => exact List.cons_ne_nil _ _

theorem asciiCount_around {left right : List Char} {c : Char} (small : c.toNat < 128) :
    asciiCount (left ++ c :: right) = asciiCount left + asciiCount right + 1 := by
  have one : asciiCount (c :: right) = asciiCount right + 1 := List.countP_cons_of_pos (by simpa using small)
  rw [asciiCount_append,one,Nat.add_assoc]

/-- The name in the only part of a field is shorter where the name has a separator in it. -/
theorem front_ascii {name value part : List Char} (free : '&' ∉ value) (single : formParts (field name value) = [part]) :
    asciiCount (splitField part).1 + (if '&' ∈ name ∨ '=' ∈ name then 1 else 0) ≤ asciiCount name ∧
      ('&' ∉ name → '=' ∉ name → (splitField part).1 = name) := by
  induction size : name.length using Nat.strongRecOn generalizing name with
  | ind n ih =>
  by_cases separated : '&' ∈ name
  · obtain ⟨left,right,rfl,_⟩ := List.eq_append_cons_of_mem separated
    have parts : formParts left ++ formParts (field right value) = [part] := by
      have shape : field (left ++ '&' :: right) value = left ++ '&' :: field right value := List.append_assoc _ _ _
      rw [← single,shape,formParts_append]
    have later : formParts (field right value) ≠ [] := formParts_some (List.mem_append_right _ List.mem_cons_self)
    have only : formParts (field right value) = [part] := by
      rcases List.append_eq_singleton_iff.mp parts with ⟨_,only⟩ | ⟨_,none⟩
      · exact only
      · exact absurd none later
    rw [List.length_append,List.length_cons] at size
    have rest := (ih right.length (by omega) only rfl).1
    have count := @asciiCount_around left right '&' (by decide)
    refine ⟨?_,fun clean => absurd separated clean⟩
    rw [if_pos (.inl separated)]
    omega
  · have whole : part = field name value := by
      have clean : '&' ∉ field name value := by
        intro inside
        rcases List.mem_append.mp inside with front | back
        · exact separated front
        · exact free ((List.mem_cons.mp back).resolve_left (by decide))
      have some : (field name value).isEmpty = false := by
        cases name <;> rfl
      rw [formParts_single clean,some] at single
      exact (List.cons.inj single).1.symm
    subst whole
    by_cases equals : '=' ∈ name
    · obtain ⟨left,right,rfl,clean⟩ := List.eq_append_cons_of_mem equals
      have front : (splitField (field (left ++ '=' :: right) value)).1 = left := by
        have shape : field (left ++ '=' :: right) value = field left (right ++ '=' :: value) := by
          rw [field,List.append_assoc]
          rfl
        rw [shape,splitField_field clean]
      have count := @asciiCount_around left right '=' (by decide)
      refine ⟨?_,fun _ clean => absurd equals clean⟩
      rw [if_pos (.inr equals),front]
      omega
    · rw [if_neg (not_or.mpr ⟨separated,equals⟩),splitField_field equals]
      exact ⟨Nat.le_refl _,fun _ _ => rfl⟩

/-- A name that is read back from its field needs no encoding. -/
theorem plainName_of_piece {name value part : List Char} (free : '&' ∉ value) (single : formParts (field name value) = [part])
    (read : lossy (decodeComponent (splitField part).1) = name) : PlainName name := by
  obtain ⟨fewer,same⟩ := front_ascii free single
  have most := lossy_component_ascii (splitField part).1
  rw [read] at most
  have clean : ¬ ('&' ∈ name ∨ '=' ∈ name) := by
    intro separated
    rw [if_pos separated] at fewer
    omega
  obtain ⟨separator,equals⟩ := not_or.mp clean
  have front := same separator equals
  rw [front] at most read
  have escape : hasEscape (encode name) = false := by
    refine Bool.eq_false_iff.mpr fun found => ?_
    rw [if_pos found] at most
    omega
  rw [lossy_component_unescaped escape] at read
  refine ⟨separator,equals,fun plus => ?_,escape⟩
  rw [← read] at plus
  obtain ⟨c,_,turned⟩ := List.mem_map.mp plus
  split at turned
  · cases turned
  · next other => exact other turned

/-- Lists with an element or more that make up a list with one for each of them. -/
theorem flatMap_each {α β : Type} {parts : α → List β} {one : α → β} (some : ∀ a, parts a ≠ []) {sources : List α}
    (same : sources.flatMap parts = sources.map one) : ∀ a ∈ sources, parts a = [one a] := by
  have least (sources : List α) : sources.length ≤ (sources.flatMap parts).length := by
    induction sources with
    | nil => exact Nat.le_refl _
    | cons a sources ih =>
      have length := List.length_pos_of_ne_nil (some a)
      rw [List.flatMap_cons,List.length_append,List.length_cons]
      omega
  induction sources with
  | nil => nofun
  | cons a sources ih =>
    obtain ⟨first,more,shape⟩ := List.exists_cons_of_ne_nil (some a)
    rw [List.flatMap_cons,List.map_cons,shape,List.cons_append] at same
    obtain ⟨rfl,rest⟩ := List.cons.inj same
    have sizes := congrArg List.length rest
    rw [List.length_append,List.length_map] at sizes
    have bound := least sources
    have nothing : more = [] := List.eq_nil_of_length_eq_zero (by omega)
    rw [nothing,List.nil_append] at rest
    rw [List.forall_mem_cons,shape,nothing]
    exact ⟨rfl,ih rest⟩

def decodePart (part : List Char) : String × String :=
  (String.ofList (lossy (decodeComponent (splitField part).1)),String.ofList (lossy (decodeComponent (splitField part).2)))

theorem decodeForm_parts (params : List Json) :
    decodeForm (formBody params) =
      (listed params).flatMap fun pair => (formParts (field pair.1.toList (formUrlEncode pair.2).toList)).map decodePart := by
  rw [decodeForm,formPairs,formBody_toList,formParts_fields,List.map_map,List.flatMap_map,List.map_flatMap]
  rfl

/-- Every pair is read back exactly when no name needs encoding. -/
theorem decodeForm_iff (params : List Json) :
    decodeForm (formBody params) = listed params ↔ ∀ pair ∈ listed params, PlainName pair.1.toList := by
  rw [decodeForm_parts]
  constructor
  · intro same pair inside
    have some (pair : String × String) : (formParts (field pair.1.toList (formUrlEncode pair.2).toList)).map decodePart ≠ [] :=
      mt List.map_eq_nil_iff.mp (formParts_some (List.mem_append_right _ List.mem_cons_self))
    obtain ⟨part,single,read⟩ := List.map_eq_singleton_iff.mp (flatMap_each some (same.trans (List.map_id _).symm) pair inside)
    have name : String.ofList (lossy (decodeComponent (splitField part).1)) = pair.1 := congrArg Prod.fst read
    refine plainName_of_piece (encoded_free pair.2) single ?_
    rw [← name,String.toList_ofList]
  · intro plain
    have each : ∀ pair ∈ listed params, (formParts (field pair.1.toList (formUrlEncode pair.2).toList)).map decodePart = [pair] := by
      intro pair inside
      obtain ⟨separator,equals,plus,escape⟩ := plain pair inside
      have whole := @formParts_joinFields [(pair.1.toList,(formUrlEncode pair.2).toList)]
        (List.forall_mem_singleton.mpr ⟨separator,encoded_free pair.2⟩)
      have name : lossy (decodeComponent pair.1.toList) = pair.1.toList :=
        (lossy_component_unescaped escape).trans (plusToSpace_plain plus)
      rw [joinFields,List.map_singleton,List.intercalate_singleton] at whole
      rw [whole,List.map_singleton,decodePart,splitField_field equals,name,encoded_value,String.ofList_toList,String.ofList_toList]
    rw [List.flatMap_congr each]
    exact List.flatMap_singleton' (listed params)

end Encoding

/-- Normalizing is idempotent. It loses no text of a request exactly where `data` can be merged, and where it makes a form
of a parameter list, that form is read back exactly when no name needs encoding. -/
theorem normalize_iff (raw : Json) :
    normalizeQdDocument (normalizeQdDocument raw) = normalizeQdDocument raw ∧
      ∀ entries, qdEntries raw = some entries → qdEntries (normalizeQdDocument raw) = some (entries.map normalizeEntry) ∧
        ∀ entry request : Fields, .obj entry ∈ entries → entry.object "request" = some request →
          ∃ entry' request' : Fields, normalizeEntry (.obj entry) = .obj entry' ∧ entry'.object "request" = some request' ∧
            (Kept request request' ↔ Mergeable request) ∧
            ∀ (post : Fields) (params : List Json), request.text "data" = none → request.object "postData" = some post →
              post.get "text" = none → post.list "params" = some params → ∃ body, bodyText request' = some (.str body) ∧
                (decodeForm body = listed params ↔ ∀ pair ∈ listed params, PlainName pair.1.toList) := by
  refine ⟨normalize_normalize raw,fun entries read => ⟨qdEntries_normalized read,fun entry request _ there => ?_⟩⟩
  obtain ⟨json,written,is⟩ := Option.bind_eq_some_iff.mp there
  have made : (normalizedEntry entry).object "request" = some (normalizedRequest request) := by
    rw [Fields.object,normalizedEntry,Fields.get_modify,if_pos rfl,hoistRules_get _ (by decide) (by decide),
      Fields.get_insertNew,if_neg (by decide),written]
    cases json with
    | obj fields =>
      cases is
      rfl
    | null | bool | num | str | arr => cases is
  refine ⟨normalizedEntry entry,normalizedRequest request,rfl,made,kept_iff request,fun post params data object text list => ?_⟩
  refine ⟨formBody params,?_,decodeForm_iff params⟩
  obtain ⟨json,written,is⟩ := Option.bind_eq_some_iff.mp object
  rw [bodyText_normalized,written]
  cases json with
  | obj fields =>
    cases is
    dsimp only
    rw [text,data,list]
    rfl
  | null | bool | num | str | arr => cases is

def posted (post : Fields) : Fields := [("request",.obj (("data",.str "x") :: post))]

theorem data_merged : ∃ entry' request' : Fields, normalizeEntry (.obj (posted [])) = .obj entry' ∧
    entry'.object "request" = some request' ∧ bodyText request' = some (.str "x") := by
  obtain ⟨_,each⟩ := (normalize_iff (.arr [.obj (posted [])])).2 _ rfl
  obtain ⟨entry',request',made,there,kept,_⟩ := each (posted []) [("data",.str "x")] List.mem_cons_self rfl
  exact ⟨entry',request',made,there,(kept.mpr fun _ => .inl rfl).data "x" rfl nofun⟩

/-- A `data` text beside `postData: null` does not come to the body. -/
theorem null_post_loses_data : ¬ ∀ raw entries, qdEntries raw = some entries → ∀ entry request : Fields, .obj entry ∈ entries →
    entry.object "request" = some request → ∃ entry' request' : Fields, normalizeEntry (.obj entry) = .obj entry' ∧
      entry'.object "request" = some request' ∧ Kept request request' := by
  intro all
  obtain ⟨entry',request',made,there,kept⟩ := all (.arr [.obj (posted [("postData",.null)])]) _ rfl (posted [("postData",.null)])
    [("data",.str "x"),("postData",.null)] List.mem_cons_self rfl
  cases made
  cases there
  cases kept.data "x" rfl nofun

end Bodies

end Qdrust.Har
