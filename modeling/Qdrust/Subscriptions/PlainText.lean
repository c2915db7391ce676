import Qdrust.Library.Marked

/-! The comment of a catalogue entry as plain text: without tags, with the entities decoded. -/
namespace Qdrust.Subscriptions.PlainText
open Library Substitution Marked

def nbsp : Var := (['&','n','b','s','p',';'],[' '])
def amp : Var := (['&','a','m','p',';'],['&'])
def lt : Var := (['&','l','t',';'],['<'])
def gt : Var := (['&','g','t',';'],['>'])
def quot : Var := (['&','q','u','o','t',';'],['"'])
def apos : Var := (['&','#','3','9',';'],['\''])

/-- The entities that are decoded after `&amp;`. -/
def later : List Var := [lt,gt,quot,apos]

def entities : List Var := nbsp :: amp :: later

/-- A line break, where the tag is one of a block. -/
def lineBreak (tag : List Char) : List Char :=
  let name := ((tag.dropWhile (· == '/')).takeWhile fun c => !(Text.whiteSpace c || c == '/')).map Char.toLower
  if [['b','r'],['p'],['d','i','v'],['l','i']].contains name then ['\n'] else []

/-- The loop over the characters, with the tag it is in. -/
def dropTags : Option (List Char) → List Char → List Char
  | none, [] => []
  | none, c :: rest => if c = '<' then dropTags (some []) rest else c :: dropTags none rest
  | some tag, [] => lineBreak tag
  | some tag, c :: rest => if c = '>' then lineBreak tag ++ dropTags none rest else dropTags (some (tag ++ [c])) rest

attribute [local simp] dropTags

/-- The lines that are not blank, without the blanks around them. -/
def cleanLines (text : List Char) : List Char :=
  ['\n'].intercalate (((text.splitOn '\n').map (Text.trimList Text.whiteSpace)).filter fun line => !line.isEmpty)

def plainText (html : List Char) : List Char := cleanLines (sequential entities (dropTags none html))

/-- `<name …>` or `</name>`, behind its first character. -/
def opensTag (rest : List Char) : Bool :=
  let name := if rest.head? = some '/' then rest.tail else rest
  name.head?.any Char.isAlpha && rest.contains '>'

/-- The text outside of tags. -/
def outside : Bool → List Char → List Char
  | _, [] => []
  | false, c :: rest =>
    if c = '<' && opensTag rest then lineBreak (rest.takeWhile (· != '>')) ++ outside true rest else c :: outside false rest
  | true, c :: rest => if c = '>' then outside false rest else outside true rest

/-- What the comment says: every entity outside of tags is decoded once. -/
def decoded (html : List Char) : List Char := cleanLines (simultaneous entities (outside false html))

/-- Every `<` outside of tags opens one. -/
def wellTagged : Bool → List Char → Bool
  | _, [] => true
  | false, c :: rest => if c = '<' then opensTag rest && wellTagged true rest else wellTagged false rest
  | true, c :: rest => wellTagged (c != '>') rest

/-- The weights by which a loss shows. -/
def weight (c : Char) : Nat := if c = '&' then 2 else if c = '<' then 1 else 0

section Entities

theorem shaped_later : Shaped '&' later := by
  refine List.forall_mem_cons.mpr ⟨⟨['l','t',';'],rfl,by decide⟩,?_⟩
  refine List.forall_mem_cons.mpr ⟨⟨['g','t',';'],rfl,by decide⟩,?_⟩
  refine List.forall_mem_cons.mpr ⟨⟨['q','u','o','t',';'],rfl,by decide⟩,?_⟩
  exact List.forall_mem_singleton.mpr ⟨['#','3','9',';'],rfl,by decide⟩

theorem shaped_amp : Shaped '&' (amp :: later) :=
  List.forall_mem_cons.mpr ⟨⟨['a','m','p',';'],rfl,by decide⟩,shaped_later⟩

theorem shaped_entities : Shaped '&' entities :=
  List.forall_mem_cons.mpr ⟨⟨['n','b','s','p',';'],rfl,by decide⟩,shaped_amp⟩

theorem mem_later {P : Var → Prop} (one : P lt) (two : P gt) (three : P quot) (four : P apos) : ∀ var ∈ later, P var :=
  List.forall_mem_cons.mpr ⟨one,List.forall_mem_cons.mpr ⟨two,List.forall_mem_cons.mpr ⟨three,List.forall_mem_singleton.mpr four⟩⟩⟩

theorem later_passes (text : List Char) : sequential later text = simultaneous later text := by
  have foreign {value : Char} (one : value ∉ lt.1.tail) (two : value ∉ gt.1.tail) (three : value ∉ quot.1.tail)
      (four : value ∉ apos.1.tail) : ∀ other ∈ later, value ∉ other.1.tail := mem_later one two three four
  refine sequential_foreign shaped_later (mem_later ?_ ?_ ?_ ?_) text
  · exact ⟨'<',rfl,by decide,foreign (by decide) (by decide) (by decide) (by decide)⟩
  · exact ⟨'>',rfl,by decide,foreign (by decide) (by decide) (by decide) (by decide)⟩
  · exact ⟨'"',rfl,by decide,foreign (by decide) (by decide) (by decide) (by decide)⟩
  · exact ⟨'\'',rfl,by decide,foreign (by decide) (by decide) (by decide) (by decide)⟩

theorem spaces (text : List Char) :
    simultaneous (amp :: later) (replaceAll nbsp text) = simultaneous entities text := by
  have foreign : ∀ other ∈ amp :: later, ' ' ∉ other.1.tail :=
    List.forall_mem_cons.mpr ⟨by decide,mem_later (by decide) (by decide) (by decide) (by decide)⟩
  exact stage_foreign shaped_entities rfl (by decide) foreign text

theorem ampersands (text : List Char) : Staged weight '&' '&' amp later text := by
  have foreign : ∀ other ∈ later, '&' ∉ other.1.tail := mem_later (by decide) (by decide) (by decide) (by decide)
  have light : ∀ other ∈ later, weigh weight other.2 < weight '&' :=
    mem_later (by decide) (by decide) (by decide) (by decide)
  exact stage shaped_amp rfl foreign (fun _ => light) text

/-- Spaces neither make nor break what `&amp;` could stand before. -/
theorem doubled_spaces (text : List Char) : Doubled amp later (replaceAll nbsp text) ↔ Doubled amp later text := by
  have stands {body : List Char} (free : '&' ∉ body) (blank : ' ' ∉ body) : '&' :: (['a','m','p',';'] ++ body) <:+:
      replaceAll nbsp text ↔ '&' :: (['a','m','p',';'] ++ body) <:+: text := by
    refine infix_replaced ⟨['n','b','s','p',';'],rfl,by decide⟩ rfl (by decide) ?_ ?_ ?_ text
    · rw [List.mem_append]
      exact not_or.mpr ⟨by decide,free⟩
    · rw [List.mem_append]
      exact not_or.mpr ⟨by decide,blank⟩
    · rintro rest ⟨behind,same⟩
      have heads : some 'a' = some 'n' := congrArg List.head? same
      exact absurd heads (by decide)
  have blanks : ∀ other ∈ later, ' ' ∉ other.1.tail := mem_later (by decide) (by decide) (by decide) (by decide)
  refine exists_congr fun other => and_congr_right fun inside => ?_
  obtain ⟨body,shape,free⟩ := shaped_later other inside
  have blank := blanks other inside
  rw [shape,List.tail_cons] at blank
  rw [shape,List.tail_cons]
  exact stands free blank

/-- The decoding is one pass, unless `&amp;` stands before the rest of another entity. -/
theorem passes (text : List Char) :
    (¬Doubled amp later text ∧ sequential entities text = simultaneous entities text) ∨
    (Doubled amp later text ∧
      weigh weight (sequential entities text) < weigh weight (simultaneous entities text)) := by
  have whole : sequential entities text = simultaneous later (replaceAll amp (replaceAll nbsp text)) := by
    unfold entities
    rw [sequential_cons,sequential_cons,later_passes]
  rw [whole,← spaces,← doubled_spaces]
  rcases ampersands (replaceAll nbsp text) with ⟨plain,same⟩ | ⟨both,less⟩
  · exact .inl ⟨fun doubled => plain ⟨rfl,doubled⟩,same⟩
  · exact .inr ⟨both.2,less⟩

end Entities

section Tags

/-- What a text weighs once it is decoded. -/
def weighed (text : List Char) : Nat := weigh weight (simultaneous entities text)

theorem mem_entities {P : Var → Prop} (first : P nbsp) (second : P amp) (others : ∀ var ∈ later, P var) :
    ∀ var ∈ entities, P var := List.forall_mem_cons.mpr ⟨first,List.forall_mem_cons.mpr ⟨second,others⟩⟩

/-- The rest of an entity weighs nothing, and its character no more than the mark. -/
theorem entity_light : ∀ var ∈ entities, weigh weight var.1.tail = 0 ∧ weigh weight var.2 ≤ 2 ∧ '<' ∉ var.1.tail :=
  mem_entities (by decide) (by decide) (mem_later (by decide) (by decide) (by decide) (by decide))

theorem weighed_plain {c : Char} {text : List Char}
    (missing : entities.find? (fun var => var.1.isPrefixOf (c :: text)) = none) :
    weighed (c :: text) = weight c + weighed text := by
  unfold weighed
  rw [simultaneous_plain missing]
  rfl

theorem weighed_entity {c : Char} {text : List Char} {var : Var}
    (found : entities.find? (fun var => var.1.isPrefixOf (c :: text)) = some var) :
    weighed (c :: text) = weigh weight var.2 + weighed text ∧ c = '&' ∧ var.1.tail <+: text ∧ var ∈ entities := by
  obtain ⟨inside,starts⟩ := find_starts found
  obtain ⟨body,shape,free⟩ := shaped_entities var inside
  have light := (entity_light var inside).1
  have hole := simultaneous_hole shaped_entities.some found
  rw [shape,List.cons_prefix_cons] at starts
  obtain ⟨same,rest,rfl⟩ := starts
  rw [shape,List.length_cons,List.drop_succ_cons,List.drop_left] at hole
  rw [shape,List.tail_cons] at light ⊢
  unfold weighed
  rw [hole,simultaneous_body shaped_entities free,weigh_append,weigh_append,light]
  exact ⟨by omega,same.symm,List.prefix_append _ _,inside⟩

theorem weighed_cons (c : Char) (text : List Char) : weighed text ≤ weighed (c :: text) := by
  cases found : entities.find? fun var => var.1.isPrefixOf (c :: text) with
  | none =>
    rw [weighed_plain found]
    omega
  | some var =>
    rw [(weighed_entity found).1]
    omega

theorem weighed_append (front text : List Char) : weighed text ≤ weighed (front ++ text) := by
  induction front with
  | nil => exact le_refl _
  | cons c front ih => exact ih.trans (weighed_cons c _)

/-- Every entity that begins a text begins the other. -/
def Followed (whole part : List Char) : Prop := ∀ body, '<' ∉ body → body <+: whole → body <+: part

theorem prefixFree_entities : PrefixFree entities := by
  unfold PrefixFree
  decide

/-- One more character in front of both texts. -/
theorem weighed_same {c : Char} {whole part : List Char} (followed : Followed whole part) :
    weighed (c :: part) + weighed whole ≤ weighed (c :: whole) + weighed part := by
  cases found : entities.find? fun var => var.1.isPrefixOf (c :: whole) with
  | some var =>
    obtain ⟨weight,rfl,starts,inside⟩ := weighed_entity found
    have begins : var.1 <+: '&' :: part := by
      obtain ⟨body,shape,_⟩ := shaped_entities var inside
      have free := (entity_light var inside).2.2
      rw [shape,List.tail_cons] at starts free
      rw [shape,List.cons_prefix_cons]
      exact ⟨rfl,followed body free starts⟩
    have found' := find_starting prefixFree_entities inside begins
    rw [weight,(weighed_entity found').1]
    omega
  | none =>
    rw [weighed_plain found]
    cases found' : entities.find? fun var => var.1.isPrefixOf (c :: part) with
    | none =>
      rw [weighed_plain found']
      omega
    | some var =>
      obtain ⟨same,rfl,_,inside⟩ := weighed_entity found'
      have light := (entity_light var inside).2.1
      have mark : weight '&' = 2 := rfl
      rw [same]
      omega

/-- What stands behind the end of a tag. -/
def behind (rest : List Char) : List Char := (rest.dropWhile (· != '>')).tail

theorem behind_end (rest : List Char) : behind ('>' :: rest) = rest := rfl

theorem behind_skip {c : Char} (other : c ≠ '>') (rest : List Char) : behind (c :: rest) = behind rest := by
  have goes : (fun d : Char => d != '>') c = true := bne_iff_ne.mpr other
  unfold behind
  rw [List.dropWhile_cons,if_pos goes]

theorem outside_true (rest : List Char) : outside true rest = outside false (behind rest) := by
  induction rest with
  | nil => rfl
  | cons c rest ih =>
    rw [outside]
    split
    · next same => rw [same,behind_end]
    · next other => rw [ih,behind_skip other]

theorem wellTagged_true (rest : List Char) : wellTagged true rest = wellTagged false (behind rest) := by
  induction rest with
  | nil => rfl
  | cons c rest ih =>
    rw [wellTagged]
    by_cases same : c = '>'
    · rw [same,behind_end]
      rfl
    · rw [bne_iff_ne.mpr same,ih,behind_skip same]

theorem dropTags_some (tag rest : List Char) :
    dropTags (some tag) rest = lineBreak (tag ++ rest.takeWhile (· != '>')) ++ dropTags none (behind rest) := by
  induction rest generalizing tag with
  | nil =>
    rw [dropTags,List.takeWhile_nil,List.append_nil]
    exact (List.append_nil _).symm
  | cons c rest ih =>
    rw [dropTags]
    split
    · next same =>
      subst same
      rw [behind_end,List.takeWhile_cons_of_neg (by decide),List.append_nil]
    · next other =>
      have goes : (fun d : Char => d != '>') c = true := bne_iff_ne.mpr other
      rw [ih,behind_skip other,List.takeWhile_cons,if_pos goes,List.append_assoc]
      rfl

theorem dropTags_plain {c : Char} (other : c ≠ '<') (rest : List Char) :
    dropTags none (c :: rest) = c :: dropTags none rest := by
  rw [dropTags,if_neg other]

theorem dropTags_tag (rest : List Char) :
    dropTags none ('<' :: rest) = lineBreak (rest.takeWhile (· != '>')) ++ dropTags none (behind rest) := by
  rw [dropTags,if_pos rfl,dropTags_some,List.nil_append]

theorem outside_plain {c : Char} {rest : List Char} (other : (c = '<' && opensTag rest) = false) :
    outside false (c :: rest) = c :: outside false rest := by
  rw [outside,if_neg (Bool.eq_false_iff.mp other)]

theorem outside_tag {rest : List Char} (opens : opensTag rest = true) :
    outside false ('<' :: rest) = lineBreak (rest.takeWhile (· != '>')) ++ outside false (behind rest) := by
  rw [outside,opens,outside_true]
  exact if_pos rfl

/-- What is behind the next `>` is behind something, whatever opens before it. -/
theorem outside_behind (rest : List Char) : ∃ front, outside false rest = front ++ outside false (behind rest) := by
  induction rest with
  | nil => exact ⟨[],rfl⟩
  | cons c rest ih =>
    by_cases ends : c = '>'
    · subst ends
      exact ⟨['>'],outside_plain rfl⟩
    · rw [behind_skip ends]
      cases opens : (c = '<' && opensTag rest : Bool) with
      | true =>
        obtain ⟨same,opens⟩ := (Bool.and_eq_true _ _).mp opens
        rw [of_decide_eq_true same,outside_tag opens]
        exact ⟨_,rfl⟩
      | false =>
        obtain ⟨front,same⟩ := ih
        exact ⟨c :: front,by rw [outside_plain opens,same]; rfl⟩

theorem behind_length (rest : List Char) : (behind rest).length ≤ rest.length := by
  unfold behind
  rw [List.length_tail]
  exact (Nat.sub_le _ _).trans (List.dropWhile_suffix _).length_le

/-- The cases of the scan: a character, or a tag with what is behind it. -/
theorem scan_induction {motive : List Char → Prop} (nil : motive [])
    (plain : ∀ c rest, c ≠ '<' → motive rest → motive (c :: rest))
    (tag : ∀ rest, motive (behind rest) → motive ('<' :: rest)) (html : List Char) : motive html := by
  induction size : html.length using Nat.strongRecOn generalizing html with
  | ind size' ih =>
  cases html with
  | nil => exact nil
  | cons c rest =>
    rw [List.length_cons] at size
    by_cases opens : c = '<'
    · subst opens
      have shorter := behind_length rest
      exact tag rest (ih _ (by omega) _ rfl)
    · exact plain c rest opens (ih _ (by omega) _ rfl)

theorem followed_cons {whole part : List Char} (followed : Followed whole part) (c : Char) :
    Followed (c :: whole) (c :: part) := by
  intro body free starts
  cases body with
  | nil => exact List.nil_prefix
  | cons d body =>
    rw [List.mem_cons,not_or] at free
    rw [List.cons_prefix_cons] at starts ⊢
    exact ⟨starts.1,followed body free.2 starts.2⟩

theorem followed_append {whole part : List Char} (followed : Followed whole part) (front : List Char) :
    Followed (front ++ whole) (front ++ part) := by
  induction front with
  | nil => exact followed
  | cons c front ih => exact followed_cons ih c

/-- The same text in front of both. -/
theorem weighed_front {whole part : List Char} (followed : Followed whole part) (front : List Char) :
    weighed (front ++ part) + weighed whole ≤ weighed (front ++ whole) + weighed part := by
  induction front with
  | nil => exact (Nat.add_comm _ _).le
  | cons c front ih =>
    have step := @weighed_same c _ _ (followed_append followed front)
    rw [List.cons_append,List.cons_append]
    omega

theorem followed_outside (html : List Char) : Followed (outside false html) (dropTags none html) := by
  induction html using scan_induction with
  | nil => exact fun _ _ starts => starts
  | plain c rest other ih =>
    rw [dropTags_plain other,outside_plain (by rw [decide_eq_false other]; rfl)]
    exact followed_cons ih c
  | tag rest ih =>
    cases opens : opensTag rest with
    | true =>
      rw [dropTags_tag,outside_tag opens]
      exact followed_append ih _
    | false =>
      rw [outside_plain (by rw [opens]; exact Bool.and_false _)]
      intro body free starts
      cases body with
      | nil => exact List.nil_prefix
      | cons d body =>
        rw [List.cons_prefix_cons] at starts
        exact absurd starts.1.symm (fun same => free (same ▸ List.mem_cons_self))

theorem weighed_break (tag text : List Char) : weighed (lineBreak tag ++ text) = weighed text := by
  have newline : weighed ('\n' :: text) = 0 + weighed text := weighed_plain (find_unmarked shaped_entities (by decide) _)
  unfold lineBreak
  dsimp only
  split
  · rw [List.singleton_append,newline,Nat.zero_add]
  · rfl

/-- Nothing is lost with the tags, or the text that is left is lighter. -/
theorem tags (html : List Char) :
    (wellTagged false html = true ∧ dropTags none html = outside false html) ∨
    (wellTagged false html = false ∧ weighed (dropTags none html) < weighed (outside false html)) := by
  induction html using scan_induction with
  | nil => exact .inl ⟨rfl,rfl⟩
  | plain c rest other ih =>
    have step := weighed_front (followed_outside rest) [c]
    have same : outside false (c :: rest) = c :: outside false rest := outside_plain (by rw [decide_eq_false other]; rfl)
    have tagged : wellTagged false (c :: rest) = wellTagged false rest := by rw [wellTagged,if_neg other]
    rw [dropTags_plain other,same,tagged]
    rcases ih with ⟨well,all⟩ | ⟨ill,less⟩
    · exact .inl ⟨well,by rw [all]⟩
    · rw [List.singleton_append,List.singleton_append] at step
      exact .inr ⟨ill,by omega⟩
  | tag rest ih =>
    have tagged : wellTagged false ('<' :: rest) = (opensTag rest && wellTagged false (behind rest)) := by
      rw [wellTagged,if_pos rfl,wellTagged_true]
    rw [tagged,dropTags_tag]
    cases opens : opensTag rest with
    | true =>
      have step := weighed_front (followed_outside (behind rest)) (lineBreak (rest.takeWhile (· != '>')))
      rw [outside_tag opens,Bool.true_and]
      rcases ih with ⟨well,all⟩ | ⟨ill,less⟩
      · exact .inl ⟨well,by rw [all]⟩
      · exact .inr ⟨ill,by omega⟩
    | false =>
      have kept : weighed (dropTags none (behind rest)) ≤ weighed (outside false (behind rest)) := by
        rcases ih with ⟨_,all⟩ | ⟨_,less⟩
        · rw [all]
        · exact less.le
      obtain ⟨front,same⟩ := outside_behind rest
      have more := weighed_append front (outside false (behind rest))
      rw [outside_plain (by rw [opens]; exact Bool.and_false _)]
      have stray : weighed ('<' :: outside false rest) = 1 + weighed (outside false rest) :=
        weighed_plain (find_unmarked shaped_entities (by decide) _)
      have broken := weighed_break (rest.takeWhile (· != '>')) (dropTags none (behind rest))
      refine .inr ⟨rfl,?_⟩
      rw [stray,same,broken]
      omega

end Tags

section Lines

theorem weight_blank {c : Char} (white : Text.whiteSpace c = true) : weight c = 0 := by
  unfold weight
  rw [if_neg,if_neg]
  · rintro rfl
    exact absurd white (by decide)
  · rintro rfl
    exact absurd white (by decide)

theorem weigh_blank {text : List Char} (blank : ∀ c ∈ text, Text.whiteSpace c = true) : weigh weight text = 0 := by
  induction text with
  | nil => rfl
  | cons c text ih =>
    obtain ⟨first,rest⟩ := List.forall_mem_cons.mp blank
    change weight c + weigh weight text = 0
    rw [weight_blank first,ih rest]

theorem weigh_dropWhile (text : List Char) : weigh weight (text.dropWhile Text.whiteSpace) = weigh weight text := by
  have blank : weigh weight (text.takeWhile Text.whiteSpace) = 0 := weigh_blank fun c inside => List.mem_takeWhile_imp inside
  conv_rhs => rw [← @List.takeWhile_append_dropWhile _ Text.whiteSpace text]
  rw [weigh_append,blank,Nat.zero_add]

theorem weigh_reverse (text : List Char) : weigh weight text.reverse = weigh weight text := by
  induction text with
  | nil => rfl
  | cons c text ih =>
    rw [List.reverse_cons,weigh_append,ih,weigh,weigh,weigh]
    omega

theorem weigh_trim (text : List Char) : weigh weight (Text.trimList Text.whiteSpace text) = weigh weight text := by
  unfold Text.trimList List.rdropWhile
  rw [weigh_reverse,weigh_dropWhile,weigh_reverse,weigh_dropWhile]

theorem weigh_lines (parts : List (List Char)) :
    weigh weight (['\n'].intercalate parts) = weigh weight parts.flatten := by
  induction parts with
  | nil => rfl
  | cons part parts ih =>
    by_cases last : parts = []
    · rw [last,List.intercalate_singleton,List.flatten_singleton]
    · have newline : weigh weight ['\n'] = 0 := rfl
      rw [List.intercalate_cons_of_ne_nil last,weigh_append,weigh_append,ih,newline,List.flatten_cons,weigh_append,Nat.add_zero]

/-- The lines keep everything that weighs. -/
theorem weigh_cleanLines (text : List Char) : weigh weight (cleanLines text) = weigh weight text := by
  have lines (parts : List (List Char)) :
      weigh weight ((parts.map (Text.trimList Text.whiteSpace)).filter fun line => !line.isEmpty).flatten =
        weigh weight parts.flatten := by
    induction parts with
    | nil => rfl
    | cons part parts ih =>
      have trimmed := weigh_trim part
      rw [List.map_cons,List.filter_cons,List.flatten_cons,weigh_append]
      split
      · rw [List.flatten_cons,weigh_append,ih,trimmed]
      · next empty =>
        rw [Bool.not_eq_true,Bool.not_eq_false',List.isEmpty_iff] at empty
        rw [empty] at trimmed
        rw [ih,← trimmed]
        exact (Nat.zero_add _).symm
  unfold cleanLines
  rw [weigh_lines,lines,← weigh_lines,List.intercalate_splitOn]

end Lines

/-- The text is what the comment says exactly when every `<` outside of tags opens one, and outside of tags no `&amp;`
stands before the rest of another entity that is decoded later. -/
theorem plain_text_iff (html : List Char) : plainText html = decoded html ↔
    wellTagged false html = true ∧ ¬Doubled amp later (outside false html) := by
  unfold plainText decoded
  constructor
  · intro same
    have weights := congrArg (weigh weight) same
    rw [weigh_cleanLines,weigh_cleanLines] at weights
    change _ = weighed _ at weights
    rcases passes (dropTags none html) with ⟨plain,once⟩ | ⟨_,less⟩
    · rcases tags html with ⟨well,all⟩ | ⟨_,less⟩
      · rw [← all]
        exact ⟨well,plain⟩
      · rw [once] at weights
        exact absurd weights less.ne
    · rcases tags html with ⟨_,all⟩ | ⟨_,lesser⟩
      · rw [← all] at weights
        exact absurd weights less.ne
      · exact absurd weights (less.trans lesser).ne
  · rintro ⟨well,plain⟩
    rcases tags html with ⟨_,all⟩ | ⟨ill,_⟩
    · rcases passes (dropTags none html) with ⟨_,once⟩ | ⟨doubled,_⟩
      · rw [once,all]
      · rw [all] at doubled
        exact absurd doubled plain
    · rw [well] at ill
      cases ill

theorem double_decoding : plainText ['&','a','m','p',';','l','t',';'] ≠ decoded ['&','a','m','p',';','l','t',';'] := by
  decide

end Qdrust.Subscriptions.PlainText
