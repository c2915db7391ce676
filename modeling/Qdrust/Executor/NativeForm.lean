import Qdrust.Executor.Rendering
import Qdrust.Expression.Pieces
import Qdrust.Library.FormLoss
import Mathlib.Data.List.Nodup

/-! The form body of a native step: its fields are joined as they are, rendered,
split again and encoded. -/
namespace Qdrust.Executor
open Library Effect Utf8 Form Har Template Expression

section Markers

/-- No marker of a tag or a comment. -/
def unmarked : List Char → Bool
  | c :: d :: rest => (c != '{' || (opened (some d)).isNone) && unmarked (d :: rest)
  | _ => true

theorem unmarked_cons {c : Char} {text : List Char} (clean : unmarked (c :: text) = true) : unmarked text = true := by
  cases text with
  | nil => rfl
  | cons d rest =>
    rw [unmarked,Bool.and_eq_true] at clean
    exact clean.2

theorem unmarked_shape (text : List Char) (clean : unmarked text = true) :
    plain text = true ∨ ∃ front, text = front ++ ['{'] ∧ plain front = true := by
  induction text with
  | nil => exact .inl rfl
  | cons c text ih =>
    cases text with
    | nil =>
      by_cases brace : c = '{'
      · exact .inr ⟨[],by rw [brace]; rfl,rfl⟩
      · exact .inl (by simpa [plain] using brace)
    | cons d rest =>
      rw [unmarked,Bool.and_eq_true] at clean
      rcases ih clean.2 with even | ⟨front,same,even⟩
      · exact .inl (by rw [plain,clean.1,even]; rfl)
      · cases front with
        | nil =>
          obtain ⟨rfl,rfl⟩ := List.cons.inj same
          refine .inr ⟨[c],rfl,?_⟩
          simpa [plain,opened] using clean.1
        | cons e front =>
          obtain ⟨rfl,rfl⟩ := List.cons.inj same
          exact .inr ⟨c :: d :: front,rfl,by rw [plain,clean.1,even]; rfl⟩

/-- The rewriting leaves a text without markers alone. -/
theorem compat_unmarked (tables : CharTables) {text : List Char} (clean : unmarked text = true) :
    compatPythonTemplate tables text = text := by
  rw [compat_eq_rewriteWith]
  rcases unmarked_shape text clean with even | ⟨front,same,even⟩
  · have whole : rewriteWith tables (looksMutating text) (text ++ []) = _ := rewriteWith_text _ text [] even
    rw [List.append_nil] at whole
    rw [whole]
    cases looksMutating text <;> exact List.append_nil text
  · rw [same,rewriteWith_text _ front ['{'] even]
    cases looksMutating (front ++ ['{']) <;> rfl

/-- A character that no marker ends with and no marker begins with. -/
def Quiet (c : Char) : Prop := c ≠ '{' ∧ opened (some c) = none

theorem unmarked_append {left right : List Char} {sep : Char} (quiet : Quiet sep) (first : unmarked left = true)
    (second : unmarked right = true) : unmarked (left ++ sep :: right) = true := by
  induction left with
  | nil =>
    cases right with
    | nil => rfl
    | cons c right =>
      rw [List.nil_append,unmarked,second,Bool.and_true,Bool.or_eq_true,bne_iff_ne]
      exact .inl quiet.1
  | cons c left ih =>
    have rest := ih (unmarked_cons first)
    cases left with
    | nil =>
      change ((c != '{' || (opened (some sep)).isNone) && unmarked (sep :: right)) = true
      rw [quiet.2,Option.isNone_none,Bool.or_true,Bool.true_and]
      exact rest
    | cons d left =>
      rw [unmarked,Bool.and_eq_true] at first
      change ((c != '{' || (opened (some d)).isNone) && unmarked (d :: (left ++ sep :: right))) = true
      rw [first.1,Bool.true_and]
      exact rest

theorem unmarked_joinFields {fields : List (List Char × List Char)}
    (clean : ∀ pair ∈ fields, unmarked pair.1 = true ∧ unmarked pair.2 = true) : unmarked (joinFields fields) = true := by
  have equals : Quiet '=' := ⟨by decide,rfl⟩
  have amp : Quiet '&' := ⟨by decide,rfl⟩
  induction fields with
  | nil => rfl
  | cons first rest ih =>
    rw [List.forall_mem_cons] at clean
    have front : unmarked (field first.1 first.2) = true := unmarked_append equals clean.1.1 clean.1.2
    cases rest with
    | nil => simpa [joinFields] using front
    | cons second rest =>
      rw [joinFields_cons]
      exact unmarked_append amp front (ih clean.2)

end Markers

section Newline

def stripLast (stop : Char) (text : List Char) : List Char := if text.getLast? = some stop then text.dropLast else text

/-- The engine drops one line break at the end of a template. -/
def chomp (text : List Char) : List Char := stripLast '\r' (stripLast '\n' text)

theorem stripLast_append {sep stop : Char} (apart : sep ≠ stop) (left right : List Char) :
    stripLast stop (left ++ sep :: right) = left ++ sep :: stripLast stop right := by
  unfold stripLast
  rcases List.eq_nil_or_concat right with rfl | ⟨front,last,rfl⟩
  · simp [apart]
  · rw [List.concat_eq_append]
    have ends : (left ++ sep :: (front ++ [last])).getLast? = some last := by
      rw [← List.cons_append,← List.append_assoc,List.getLast?_concat]
    rw [ends,List.getLast?_concat]
    split
    · rw [← List.cons_append,← List.append_assoc,List.dropLast_concat,List.dropLast_concat]
    · rfl

theorem chomp_append {sep : Char} (feed : sep ≠ '\n') (carriage : sep ≠ '\r') (left right : List Char) :
    chomp (left ++ sep :: right) = left ++ sep :: chomp right := by
  rw [chomp,stripLast_append feed,stripLast_append carriage,chomp]

theorem stripLast_front (stop : Char) (text : List Char) : stripLast stop text <+: text := by
  unfold stripLast
  split
  · exact List.dropLast_prefix text
  · exact List.prefix_refl text

theorem chomp_front (text : List Char) : chomp text <+: text :=
  (stripLast_front '\r' _).trans (stripLast_front '\n' text)

/-- The fields of a text without its last line break. -/
def chompLast : List (List Char × List Char) → List (List Char × List Char)
  | [] => []
  | [last] => [(last.1,chomp last.2)]
  | first :: second :: rest => first :: chompLast (second :: rest)

theorem chomp_joinFields (fields : List (List Char × List Char)) :
    chomp (joinFields fields) = joinFields (chompLast fields) := by
  induction fields with
  | nil => rfl
  | cons first rest ih =>
    cases rest with
    | nil =>
      have single : ∀ pair : List Char × List Char, joinFields [pair] = field pair.1 pair.2 := fun pair => by
        simp [joinFields]
      rw [chompLast,single,single,field,chomp_append (by decide) (by decide)]
      rfl
    | cons second rest =>
      have kept : ∃ next others, chompLast (second :: rest) = next :: others := by
        cases rest with
        | nil => exact ⟨_,_,rfl⟩
        | cons third rest => exact ⟨_,_,rfl⟩
      obtain ⟨next,others,shape⟩ := kept
      rw [joinFields_cons,chomp_append (by decide) (by decide),ih,chompLast,shape,joinFields_cons]

theorem chompLast_append (front : List (List Char × List Char)) (last : List Char × List Char) :
    chompLast (front ++ [last]) = front ++ [(last.1,chomp last.2)] := by
  induction front with
  | nil => rfl
  | cons first rest ih =>
    cases rest with
    | nil => rfl
    | cons second rest =>
      change first :: chompLast (second :: rest ++ [last]) = _
      rw [ih]
      rfl

theorem mem_chompLast {fields : List (List Char × List Char)} {source : List Char × List Char}
    (member : source ∈ chompLast fields) :
    ∃ original ∈ fields, source.1 = original.1 ∧ source.2 <+: original.2 := by
  rcases List.eq_nil_or_concat fields with rfl | ⟨front,last,rfl⟩
  · cases member
  · rw [List.concat_eq_append,chompLast_append] at member
    rcases List.mem_append.mp member with early | final
    · exact ⟨source,by simp [early],rfl,List.prefix_refl _⟩
    · rw [List.mem_singleton.mp final]
      exact ⟨last,by simp,rfl,chomp_front last.2⟩

end Newline

section Received

/-- What arrives for the fields, when their joined text loses its last line break. -/
def received (fields : List (List Char × List Char)) : List (List Char × List Char) :=
  (formParts (joinFields (chompLast fields))).map fun part =>
    (formUrldecode (splitField part).1,formUrldecode (splitField part).2)

/-- A text that neither splits a field nor stands for another text. -/
structure Literal (text : List Char) : Prop where
  separator : '&' ∉ text
  space : '+' ∉ text
  escape : hasEscape (encode text) = false

/-- The names and values that arrive as they are. -/
structure FormSafe (fields : List (List Char × List Char)) : Prop where
  literal : ∀ pair ∈ fields, Literal pair.1 ∧ Literal pair.2
  names : ∀ pair ∈ fields, '=' ∉ pair.1
  newline : ∀ last ∈ fields.getLast?, chomp last.2 = last.2

theorem formUrldecode_literal {text : List Char} (literal : Literal text) : formUrldecode text = text :=
  (lossy_component_unescaped literal.escape).trans (plusToSpace_plain literal.space)

theorem chompLast_safe {fields : List (List Char × List Char)} (safe : FormSafe fields) : chompLast fields = fields := by
  rcases List.eq_nil_or_concat fields with rfl | ⟨front,last,rfl⟩
  · rfl
  · rw [List.concat_eq_append] at safe ⊢
    rw [chompLast_append,safe.newline last (by simp)]

theorem received_safe {fields : List (List Char × List Char)} (safe : FormSafe fields) : received fields = fields := by
  rw [received,chompLast_safe safe,formParts_joinFields fun pair member =>
    ⟨(safe.literal pair member).1.separator,(safe.literal pair member).2.separator⟩,List.map_map]
  conv_rhs => rw [← List.map_id fields]
  apply List.map_congr_left
  intro pair member
  rw [Function.comp_apply,splitField_field (safe.names pair member),formUrldecode_literal (safe.literal pair member).1,
    formUrldecode_literal (safe.literal pair member).2]
  rfl

/-- A separator or an escape in a field. -/
def Significant (pair : List Char × List Char) : Prop :=
  ('&' ∈ pair.1 ∨ '&' ∈ pair.2) ∨ hasEscape (encode pair.1) = true ∨ hasEscape (encode pair.2) = true

def size (pair : List Char × List Char) : Nat := asciiCount pair.1 + asciiCount pair.2

theorem Significant.of_source {source original : List Char × List Char} (marked : Significant source) (name : source.1 = original.1)
    (value : source.2 <+: original.2) : Significant original := by
  obtain ⟨rest,whole⟩ := value
  rcases marked with (amp | amp) | escape | escape
  · exact .inl (.inl (name ▸ amp))
  · exact .inl (.inr (whole ▸ List.mem_append_left rest amp))
  · exact .inr (.inl (name ▸ escape))
  · refine .inr (.inr ?_)
    rw [← whole,encode_append]
    exact hasEscape_append _ escape

theorem received_origin {fields : List (List Char × List Char)} {pair : List Char × List Char}
    (arrived : pair ∈ received fields) :
    ∃ source ∈ chompLast fields, ∃ part ∈ formParts (field source.1 source.2),
      pair = (formUrldecode (splitField part).1,formUrldecode (splitField part).2) := by
  obtain ⟨part,member,rfl⟩ := List.mem_map.mp arrived
  rw [formParts_fields] at member
  obtain ⟨source,inside,piece⟩ := List.mem_flatMap.mp member
  exact ⟨source,inside,part,piece,rfl⟩

/-- A field with neither is one part. -/
theorem part_whole {source : List Char × List Char} (kept : '&' ∉ source.1 ∧ '&' ∉ source.2) {part : List Char}
    (piece : part ∈ formParts (field source.1 source.2)) : part = field source.1 source.2 := by
  rcases (formParts_piece piece).2.2 with same | amp
  · exact same
  · rcases List.mem_append.mp amp with front | back
    · exact absurd front kept.1
    · rcases List.mem_cons.mp back with equals | back
      · exact absurd equals (by decide)
      · exact absurd back kept.2

/-- The sides of a field have the escapes of the field. -/
theorem sides_escape (name value : List Char) :
    (hasEscape (encode (splitField (field name value)).1) || hasEscape (encode (splitField (field name value)).2)) =
      (hasEscape (encode name) || hasEscape (encode value)) := by
  have inside : '=' ∈ field name value := List.mem_append_right _ List.mem_cons_self
  rw [← hasEscape_field,(splitField_sides inside).1,hasEscape_field]

theorem received_kept {source : List Char × List Char} (kept : ¬Significant source) {part : List Char}
    (piece : part ∈ formParts (field source.1 source.2)) :
    formUrldecode (splitField part).1 = plusToSpace (splitField (field source.1 source.2)).1 ∧
      formUrldecode (splitField part).2 = plusToSpace (splitField (field source.1 source.2)).2 := by
  simp only [Significant,not_or,Bool.not_eq_true] at kept
  have sides := sides_escape source.1 source.2
  rw [kept.2.1,kept.2.2,Bool.or_false,Bool.or_eq_false_iff] at sides
  rw [part_whole kept.1 piece]
  exact ⟨lossy_component_unescaped sides.1,lossy_component_unescaped sides.2⟩

/-- What arrives of a field has at most its characters, and fewer where one of them is significant. -/
theorem received_size {source : List Char × List Char} {part : List Char}
    (piece : part ∈ formParts (field source.1 source.2)) :
    size (formUrldecode (splitField part).1,formUrldecode (splitField part).2) ≤ size source ∧
      (Significant source →
        size (formUrldecode (splitField part).1,formUrldecode (splitField part).2) < size source) := by
  have bound := part_ascii piece
  have name := lossy_component_ascii (splitField part).1
  have value := lossy_component_ascii (splitField part).2
  change _ + _ ≤ _ + _ ∧ (_ → _ + _ < _ + _)
  change asciiCount (formUrldecode (splitField part).1) + _ ≤ _ at name
  change asciiCount (formUrldecode (splitField part).2) + _ ≤ _ at value
  refine ⟨by dsimp only; omega,?_⟩
  intro marked
  by_cases separated : '&' ∈ source.1 ∨ '&' ∈ source.2
  · rw [if_pos separated] at bound
    dsimp only
    omega
  · have sides := sides_escape source.1 source.2
    rw [← part_whole (not_or.mp separated) piece] at sides
    have escape := marked.resolve_left separated
    rw [← Bool.or_eq_true,← sides,Bool.or_eq_true] at escape
    dsimp only
    rcases escape with first | second
    · rw [if_pos first] at name
      omega
    · rw [if_pos second] at value
      omega

theorem plusToSpace_free {text : List Char} {c : Char} (space : c ≠ ' ') (free : c ∉ text) : c ∉ plusToSpace text := by
  intro member
  obtain ⟨d,inside,same⟩ := List.mem_map.mp member
  split at same
  · exact space same.symm
  · exact free (same ▸ inside)

theorem plus_plusToSpace (text : List Char) : '+' ∉ plusToSpace text := by
  intro member
  obtain ⟨d,_,same⟩ := List.mem_map.mp member
  split at same
  · cases same
  · rename_i other
    exact other same

/-- A field without significant characters arrives without them. -/
theorem received_insignificant {source : List Char × List Char} (kept : ¬Significant source) {part : List Char}
    (piece : part ∈ formParts (field source.1 source.2)) :
    ¬Significant (formUrldecode (splitField part).1,formUrldecode (splitField part).2) := by
  obtain ⟨name,value⟩ := received_kept kept piece
  have clean : '&' ∉ field source.1 source.2 := by
    rw [Significant,not_or] at kept
    rw [← part_whole (not_or.mp kept.1) piece]
    exact (formParts_piece piece).1
  have sides := splitField_subset (field source.1 source.2)
  have escapes := sides_escape source.1 source.2
  simp only [Significant,not_or,Bool.not_eq_true] at kept
  rw [kept.2.1,kept.2.2,Bool.or_false,Bool.or_eq_false_iff] at escapes
  rw [name,value,Significant]
  simp only [encode_plusToSpace,hasEscape_spaced,escapes.1,escapes.2,Bool.false_eq_true,or_false]
  intro amp
  rcases amp with first | second
  · exact plusToSpace_free (by decide) (fun inside => clean (sides.1 inside)) first
  · exact plusToSpace_free (by decide) (fun inside => clean (sides.2 inside)) second

/-- Where every field arrives, none has significant characters: each such field
would have to come from a longer one. -/
theorem insignificant_of_found {fields : List (List Char × List Char)} (found : ∀ pair ∈ fields, pair ∈ received fields) :
    ∀ pair ∈ fields, ¬Significant pair := by
  have longer : ∀ pair ∈ fields, Significant pair → ∃ other ∈ fields, Significant other ∧ size pair < size other := by
    intro pair member marked
    obtain ⟨source,inside,part,piece,same⟩ := received_origin (found pair member)
    obtain ⟨original,listed,name,value⟩ := mem_chompLast inside
    have sourceMarked : Significant source := by
      apply Classical.by_contradiction
      intro kept
      exact received_insignificant kept piece (same ▸ marked)
    refine ⟨original,listed,sourceMarked.of_source name value,?_⟩
    have shorter := (received_size piece).2 sourceMarked
    rw [← same] at shorter
    refine Nat.lt_of_lt_of_le shorter ?_
    obtain ⟨rest,whole⟩ := value
    rw [size,size,name,← whole,asciiCount_append]
    omega
  have bounded : ∀ count, ∀ pair ∈ fields, Significant pair → size pair + count ≤ (fields.map size).sum := by
    intro count
    induction count with
    | zero =>
      intro pair member _
      obtain ⟨front,back,rfl⟩ := List.append_of_mem member
      simp only [List.map_append,List.map_cons,List.sum_append,List.sum_cons]
      omega
    | succ count ih =>
      intro pair member marked
      obtain ⟨other,listed,otherMarked,less⟩ := longer pair member marked
      have bound := ih other listed otherMarked
      omega
  intro pair member marked
  have bound := bounded ((fields.map size).sum + 1) pair member marked
  omega

/-- The fields that all arrive are safe. -/
theorem safe_of_found {fields : List (List Char × List Char)} (distinct : (fields.map Prod.fst).Nodup)
    (found : ∀ pair ∈ fields, pair ∈ received fields) : FormSafe fields := by
  have kept := insignificant_of_found found
  have arrives : ∀ pair ∈ fields, ∃ source ∈ chompLast fields,
      pair = (plusToSpace (splitField (field source.1 source.2)).1,plusToSpace (splitField (field source.1 source.2)).2) := by
    intro pair member
    obtain ⟨source,inside,part,piece,same⟩ := received_origin (found pair member)
    obtain ⟨original,listed,name,value⟩ := mem_chompLast inside
    obtain ⟨first,second⟩ := received_kept (fun marked => kept original listed (marked.of_source name value)) piece
    exact ⟨source,inside,by rw [same,first,second]⟩
  have spaces : ∀ pair ∈ fields, '+' ∉ pair.1 ∧ '+' ∉ pair.2 := by
    intro pair member
    obtain ⟨source,_,same⟩ := arrives pair member
    rw [same]
    exact ⟨plus_plusToSpace _,plus_plusToSpace _⟩
  have names : ∀ pair ∈ fields, '=' ∉ pair.1 := by
    intro pair member
    obtain ⟨source,_,same⟩ := arrives pair member
    have inside : '=' ∈ field source.1 source.2 := List.mem_append_right _ List.mem_cons_self
    rw [same]
    exact plusToSpace_free (by decide) (splitField_sides inside).2
  have listed : ∀ pair ∈ fields, pair ∈ chompLast fields := by
    intro pair member
    obtain ⟨source,inside,same⟩ := arrives pair member
    obtain ⟨original,whole,name,value⟩ := mem_chompLast inside
    have plain := spaces original whole
    rw [splitField_field (name ▸ names original whole),plusToSpace_plain (name ▸ plain.1),
      plusToSpace_plain fun plus => plain.2 (value.subset plus)] at same
    exact same ▸ inside
  refine ⟨?_,names,?_⟩
  · intro pair member
    have clean := kept pair member
    simp only [Significant,not_or,Bool.not_eq_true] at clean
    exact ⟨⟨clean.1.1,(spaces pair member).1,clean.2.1⟩,⟨clean.1.2,(spaces pair member).2,clean.2.2⟩⟩
  · intro last final
    rcases List.eq_nil_or_concat fields with rfl | ⟨front,ending,rfl⟩
    · cases final
    · rw [List.concat_eq_append] at *
      rw [List.getLast?_concat,Option.mem_some_iff] at final
      subst final
      have member := listed ending (by simp)
      rw [chompLast_append] at member
      rcases List.mem_append.mp member with early | late
      · rw [List.map_append,List.nodup_append] at distinct
        exact absurd rfl (distinct.2.2 _ (List.mem_map_of_mem early) _ (by simp))
      · exact (congrArg Prod.snd (List.mem_singleton.mp late)).symm

end Received

section Sent

theorem nativeRequestEntry_post {services : Services} {request : RequestStep} {vars : Fields} {entry : QdHarEntry}
    (built : nativeRequestEntry services request vars = .ok entry) :
    entry.request.postData = request.body.map (RequestBody.postData services) := by
  obtain ⟨url,_,built⟩ := Library.bind_ok.mp built
  obtain ⟨parsed,_,built⟩ := Library.bind_ok.mp built
  obtain ⟨query,_,built⟩ := Library.bind_ok.mp built
  cases built
  rfl

theorem buildRequest_body (executor : QdExecutor) {entry : QdHarEntry} {post : QdPostData} (method url : String)
    (posted : entry.request.postData = some post) :
    Returns (fun request => ∃ context, bodyOf executor.services post context = .ok request.body)
      (buildRequest executor entry method url) := by
  refine returns_bind fun context => ?_
  refine returns_bind fun connection => ?_
  refine returns_bind fun _ => ?_
  refine returns_bind fun rendered => ?_
  refine returns_bind fun _ => ?_
  refine returns_bind fun context => ?_
  refine returns_bind fun cookies => ?_
  refine returns_bind fun _ => ?_
  refine returns_bind fun _ => ?_
  refine returns_bind fun context => ?_
  refine returns_bind fun history => ?_
  refine returns_bind fun stored => ?_
  refine returns_lift fun body written => ?_
  rw [posted] at written
  exact returns_pure ⟨context,written⟩

/-- An engine that writes a text without markers as it is. -/
def WritesText (services : Services) : Prop :=
  ∀ text vars, unmarked text = true → services.renderStr (String.ofList text) vars = .ok (String.ofList (chomp text))

def charFields (values : List (String × String)) : List (List Char × List Char) :=
  values.map fun pair => (pair.1.toList,pair.2.toList)

theorem form_body {services : Services} (writes : WritesText services) {values : List (String × String)}
    (clean : ∀ pair ∈ values, unmarked pair.1.toList = true ∧ unmarked pair.2.toList = true)
    (context : ExecutionContext) :
    bodyOf services (RequestBody.postData services (.form values)) context =
      .ok (some (.text (encodeFormBody (String.ofList (joinFields (chompLast (charFields values))))))) := by
  have joined : unmarked (joinFields (charFields values)) = true := by
    apply unmarked_joinFields
    intro pair member
    obtain ⟨original,inside,rfl⟩ := List.mem_map.mp member
    exact clean original inside
  have rendered : services.render (String.ofList (joinFields (charFields values))) context =
      .ok (String.ofList (joinFields (chompLast (charFields values)))) := by
    rw [Services.render,Services.renderTemplate,String.toList_ofList,compat_unmarked _ joined,writes _ _ joined,
      chomp_joinFields]
    rfl
  have single : hasPrefix formMime "multipart/" = false := by decide
  have form : Text.contains (asciiLower formMime) formMime = true := by decide
  rw [bodyOf,RequestBody.postData]
  simp only [Option.getD_some,single,form,if_true,Bool.false_eq_true,if_false]
  change (services.render (String.ofList (joinFields (charFields values))) context >>= _) = _
  rw [rendered]
  rfl

/-- The pairs a form reader finds in the body. -/
theorem formPairs_body (fields : List (List Char × List Char)) :
    formPairs (encodeFormBody (String.ofList (joinFields (chompLast fields)))).toList =
      (received fields).map fun pair => (encode pair.1,encode pair.2) := by
  rw [formPairs_encodeFormBody,String.toList_ofList,formPairs,received,List.map_map,List.map_map]
  rfl

def utf8Pair (pair : String × String) : Bytes × Bytes := (encode pair.1.toList,encode pair.2.toList)

theorem encode_injective {left right : List Char} (same : encode left = encode right) : left = right := by
  rw [← lossy_encode left,same,lossy_encode]

theorem mem_received {fields : List (List Char × List Char)} {pair : List Char × List Char} :
    (encode pair.1,encode pair.2) ∈ (received fields).map (fun pair => (encode pair.1,encode pair.2)) ↔
      pair ∈ received fields := by
  constructor
  · intro member
    obtain ⟨other,inside,same⟩ := List.mem_map.mp member
    obtain ⟨first,second⟩ := Prod.mk.inj same
    rw [← Prod.ext (encode_injective first) (encode_injective second)]
    exact inside
  · intro member
    exact List.mem_map.mpr ⟨pair,member,rfl⟩

/-- A form whose fields are all read back is safe, and a safe one is read back as it was. -/
theorem read_back {values : List (String × String)} (distinct : (values.map Prod.fst).Nodup) :
    ((∀ pair ∈ values, utf8Pair pair ∈ (received (charFields values)).map fun pair => (encode pair.1,encode pair.2)) →
        FormSafe (charFields values)) ∧
      (FormSafe (charFields values) →
        (received (charFields values)).map (fun pair => (encode pair.1,encode pair.2)) = values.map utf8Pair) := by
  constructor
  · intro found
    apply safe_of_found
    · have names : (charFields values).map Prod.fst = (values.map Prod.fst).map String.toList := by
        rw [charFields,List.map_map,List.map_map]
        rfl
      rw [names]
      exact List.Nodup.map (fun _ _ same => String.toList_inj.mp same) distinct
    · intro pair member
      obtain ⟨original,inside,rfl⟩ := List.mem_map.mp member
      exact mem_received.mp (found original inside)
  · intro safe
    rw [received_safe safe,charFields,List.map_map]
    rfl

/-- The body that is sent is read back as the map exactly when its names and values
are safe, even if only its fields are looked up in what is read. -/
theorem native_form_iff (executor : QdExecutor) (writes : WritesText executor.services) (request : RequestStep)
    (values : List (String × String)) (state : Execution) (outbound : OutboundRequest)
    (form : request.body = some (.form values)) (distinct : (values.map Prod.fst).Nodup)
    (clean : ∀ pair ∈ values, unmarked pair.1.toList = true ∧ unmarked pair.2.toList = true)
    (made : .sent outbound ∈ (executeNativeRequest executor request state).2.events.drop state.events.length) :
    ∃ body, outbound.body = some (.text body) ∧
      (formPairs body.toList = values.map utf8Pair ↔ FormSafe (charFields values)) ∧
      ((∀ pair ∈ values, utf8Pair pair ∈ formPairs body.toList) ↔ FormSafe (charFields values)) := by
  refine ⟨encodeFormBody (String.ofList (joinFields (chompLast (charFields values)))),?_,?_⟩
  · cases built : nativeRequestEntry executor.services request state.context.vars with
    | error failure =>
      unfold executeNativeRequest at made
      rw [read_bind,built,lift_bind,List.drop_length] at made
      cases made
    | ok entry =>
      obtain ⟨new,written,holds⟩ := executeNativeRequest_sends executor request state entry built
      rw [written,List.drop_left] at made
      obtain ⟨method,url,_,_,out⟩ := holds _ made rfl
      have posted := nativeRequestEntry_post built
      rw [form] at posted
      rcases outgoing_cases out with ⟨_,same,_⟩ | ⟨request,same,run⟩
      · cases same
      · cases same
        obtain ⟨context,body⟩ := buildRequest_body executor method url posted _ _ run
        rw [form_body writes clean context] at body
        exact (Except.ok.inj body).symm
  · obtain ⟨safe,back⟩ := read_back distinct
    rw [formPairs_body]
    refine ⟨⟨fun same => safe ?_,back⟩,⟨safe,fun fine => ?_⟩⟩
    · intro pair member
      rw [same]
      exact List.mem_map.mpr ⟨pair,member,rfl⟩
    · intro pair member
      rw [back fine]
      exact List.mem_map.mpr ⟨pair,member,rfl⟩

/-- The web host, with an engine for texts without markers. -/
def plainHost : QdExecutor :=
  { oneHost with services := { oneHost.services with renderStr := fun text _ => .ok (String.ofList (chomp text.toList)) } }

theorem plainHost_writes : WritesText plainHost.services := by
  intro text vars _
  change Except.ok (String.ofList (chomp (String.ofList text).toList)) = _
  rw [String.toList_ofList]

def formStep (values : List (String × String)) : RequestStep :=
  ⟨"form","POST","http://host.invalid/",[],[],some (.form values)⟩

def formSent (body : String) : OutboundRequest :=
  ⟨.pinned "host.invalid" [(.v4 ⟨93,184,216,34⟩,80)],"POST","http://host.invalid/",[("content-type",formMime)],
    some (.text body)⟩

set_option maxRecDepth 20000 in
/-- A value with a separator becomes two fields. -/
theorem separator_splits_field :
    .sent (formSent "q=a&b=") ∈ (executeNativeRequest plainHost (formStep [("q","a&b")]) (started [])).2.events ∧
      formPairs "q=a&b=".toList ≠ [("q","a&b")].map utf8Pair :=
  ⟨.tail _ (.head _),by decide⟩

set_option maxRecDepth 20000 in
theorem plain_field_read_back :
    ∃ body, (formSent "q=1%202").body = some (.text body) ∧
      (formPairs body.toList = [("q","1 2")].map utf8Pair ↔ FormSafe (charFields [("q","1 2")])) ∧
      ((∀ pair ∈ [("q","1 2")], utf8Pair pair ∈ formPairs body.toList) ↔ FormSafe (charFields [("q","1 2")])) :=
  native_form_iff plainHost plainHost_writes (formStep [("q","1 2")]) [("q","1 2")] (started []) (formSent "q=1%202") rfl
    (by decide) (by decide) (.tail _ (.head _))

end Sent

end Qdrust.Executor
