import Qdrust.Library.Masking
import Qdrust.Redact

/-! What the masking of URLs leaves of a text, and that it leaves a masked text alone. -/
namespace Qdrust.Redact
open Library Masking

/-- The parts of a URL body. -/
structure Parts (authority front query fragment : List Char) : Prop where
  host : ∀ c ∈ authority, c ≠ '/' ∧ c ≠ '?' ∧ c ≠ '#'
  path : ∀ c ∈ front, c ≠ '?' ∧ c ≠ '#'
  slash : ∀ c ∈ front.head?, c = '/'
  plain : ∀ c ∈ query, c ≠ '#'
  mark : ∀ c ∈ query.head?, c = '?'
  hash : ∀ c ∈ fragment.head?, c = '#'

theorem head_dropWhile {p : Char → Bool} {text : List Char} {c : Char} (first : c ∈ (text.dropWhile p).head?) : p c = false := by
  have stop := List.head?_dropWhile_not p text
  rw [Option.mem_def.mp first] at stop
  exact stop

theorem Parts.rest {authority front query fragment : List Char} (parts : Parts authority front query fragment) {c : Char}
    (first : c ∈ (front ++ query ++ fragment).head?) : c = '/' ∨ c = '?' ∨ c = '#' := by
  cases front with
  | cons d front => exact Or.inl (parts.slash c first)
  | nil =>
    cases query with
    | cons d query => exact Or.inr (Or.inl (parts.mark c first))
    | nil => exact Or.inr (Or.inr (parts.hash c first))

/-- The parts are read where they were put together. -/
theorem Parts.read {authority front query fragment : List Char} (parts : Parts authority front query fragment) :
    redactUrlBody (authority ++ (front ++ query ++ fragment)) =
      redactAuthority authority ++ front ++ redactQuery (query.dropWhile (· == '?')) ++ fragment := by
  have first := @Text.takeWhile_ends (fun c => !(c == '/' || c == '?' || c == '#')) authority (front ++ query ++ fragment)
    (fun c inside => by
      obtain ⟨slash,mark,hash⟩ := parts.host c inside
      simp [slash,mark,hash])
    (fun c inside => by rcases parts.rest inside with rfl | rfl | rfl <;> rfl)
  have second := @Text.takeWhile_ends (fun c => c != '#') (front ++ query) fragment
    (fun c inside => by
      rcases List.mem_append.mp inside with inside | inside
      · exact bne_iff_ne.mpr (parts.path c inside).2
      · exact bne_iff_ne.mpr (parts.plain c inside))
    (fun c inside => by rw [parts.hash c inside]; rfl)
  have third := @Text.takeWhile_ends (fun c => c != '?') front query
    (fun c inside => bne_iff_ne.mpr (parts.path c inside).1) (fun c inside => by rw [parts.mark c inside]; rfl)
  unfold redactUrlBody
  simp only [first.1,List.drop_left,second.1,third.1]

theorem drop_takeWhile (p : Char → Bool) (text : List Char) : text.drop (text.takeWhile p).length = text.dropWhile p := by
  have cut := @List.drop_left _ (text.takeWhile p) (text.dropWhile p)
  rwa [List.takeWhile_append_dropWhile] at cut

theorem head_takeWhile {p : Char → Bool} {text : List Char} {c : Char} (first : c ∈ (text.takeWhile p).head?) : c ∈ text.head? := by
  cases text with
  | nil => cases first
  | cons d text =>
    rw [List.takeWhile_cons] at first
    split at first
    · exact first
    · cases first

/-- Every body has its parts. -/
theorem body_parts (body : List Char) : ∃ authority front query fragment,
    Parts authority front query fragment ∧ body = authority ++ (front ++ query ++ fragment) := by
  let rest := body.dropWhile fun c => !(c == '/' || c == '?' || c == '#')
  let path := rest.takeWhile (· != '#')
  refine ⟨body.takeWhile fun c => !(c == '/' || c == '?' || c == '#'),path.takeWhile (· != '?'),path.dropWhile (· != '?'),
    rest.dropWhile (· != '#'),?_,?_⟩
  · have hash (c : Char) (inside : c ∈ path) : c ≠ '#' := by simpa using List.mem_takeWhile_imp inside
    constructor
    · intro c inside
      have kept := List.mem_takeWhile_imp inside
      simp at kept
      exact ⟨kept.1.1,kept.1.2,kept.2⟩
    · intro c inside
      exact ⟨by simpa using List.mem_takeWhile_imp inside,hash c ((List.takeWhile_sublist _).mem inside)⟩
    · intro c first
      have start : c ∈ path.head? := head_takeWhile first
      have stop := head_dropWhile (head_takeWhile start)
      have mark : c ≠ '?' := by simpa using List.mem_takeWhile_imp (List.mem_of_mem_head? first)
      have other := hash c (List.mem_of_mem_head? start)
      simpa [mark,other] using stop
    · exact fun c inside => hash c ((List.dropWhile_sublist _).mem inside)
    · exact fun c first => by simpa using head_dropWhile first
    · exact fun c first => by simpa using head_dropWhile first
  · rw [List.takeWhile_append_dropWhile,List.takeWhile_append_dropWhile,List.takeWhile_append_dropWhile]

section Pieces

/-- What is masked of an authority ends at its last `@`. -/
theorem authority_last {host : List Char} (free : '@' ∉ host) (user : List Char) :
    redactAuthority (user ++ '@' :: host) = mask ++ '@' :: host := by
  have last := @Text.takeWhile_ends (· != '@') host.reverse ('@' :: user.reverse)
    (fun c inside => bne_iff_ne.mpr fun same => free (same ▸ List.mem_reverse.mp inside)) (fun c first => by cases first; rfl)
  have turned : (user ++ '@' :: host).reverse = host.reverse ++ '@' :: user.reverse := by simp
  have inside : (user ++ '@' :: host).contains '@' = true :=
    List.contains_iff_mem.mpr (List.mem_append_right user List.mem_cons_self)
  rw [redactAuthority,if_pos inside,turned,last.1,List.reverse_reverse]

theorem authority_cases (authority : List Char) :
    redactAuthority authority = authority ∨ ∃ user host, '@' ∉ host ∧ authority = user ++ '@' :: host := by
  by_cases inside : '@' ∈ authority
  · obtain ⟨host,user,turned,free⟩ := List.eq_append_cons_of_mem (List.mem_reverse.mpr inside)
    refine Or.inr ⟨user.reverse,host.reverse,fun member => free (List.mem_reverse.mp member),?_⟩
    rw [← List.reverse_reverse authority,turned]
    simp
  · exact Or.inl (if_neg fun contains => inside (List.contains_iff_mem.mp contains))

theorem authority_idempotent (authority : List Char) : redactAuthority (redactAuthority authority) = redactAuthority authority := by
  rcases authority_cases authority with same | ⟨user,host,free,rfl⟩
  · rw [same,same]
  · rw [authority_last free,authority_last free]

theorem pair_secret {name : List Char} (free : '=' ∉ name) (secret : isSecretName name = true) (value : List Char) :
    redactPair (name ++ '=' :: value) = name ++ '=' :: mask := by
  have first := @Text.takeWhile_ends (· != '=') name ('=' :: value)
    (fun c inside => bne_iff_ne.mpr fun same => free (same ▸ inside)) (fun c first => by cases first; rfl)
  have inside : (name ++ '=' :: value).contains '=' = true := List.contains_iff_mem.mpr (List.mem_append_right name List.mem_cons_self)
  unfold redactPair
  simp only [first.1,inside,secret,Bool.and_self,if_true]

/-- A pair is kept, or masked behind its name. -/
theorem pair_cases (pair : List Char) :
    redactPair pair = pair ∨ ∃ name value, '=' ∉ name ∧ isSecretName name = true ∧ pair = name ++ '=' :: value := by
  by_cases inside : '=' ∈ pair
  · obtain ⟨name,value,rfl,free⟩ := List.eq_append_cons_of_mem inside
    cases secret : isSecretName name with
    | true => exact Or.inr ⟨name,value,free,secret,rfl⟩
    | false =>
      left
      have first := @Text.takeWhile_ends (· != '=') name ('=' :: value)
        (fun c inside => bne_iff_ne.mpr fun same => free (same ▸ inside)) (fun c first => by cases first; rfl)
      unfold redactPair
      simp only [first.1,secret,Bool.and_false,Bool.false_eq_true,if_false]
  · left
    have absent : pair.contains '=' = false := Bool.eq_false_iff.mpr fun contains => inside (List.contains_iff_mem.mp contains)
    unfold redactPair
    simp only [absent,Bool.false_and,Bool.false_eq_true,if_false]

theorem pair_idempotent (pair : List Char) : redactPair (redactPair pair) = redactPair pair := by
  rcases pair_cases pair with same | ⟨name,value,free,secret,rfl⟩
  · rw [same,same]
  · rw [pair_secret free secret,pair_secret free secret]

theorem pair_mem {pair : List Char} {c : Char} (inside : c ∈ redactPair pair) : c ∈ pair ∨ c ∈ mask := by
  rcases pair_cases pair with same | ⟨name,value,free,secret,rfl⟩
  · rw [same] at inside
    exact Or.inl inside
  · rw [pair_secret free secret] at inside
    rcases List.mem_append.mp inside with inside | inside
    · exact Or.inl (List.mem_append_left _ inside)
    · rcases List.mem_cons.mp inside with rfl | inside
      · exact Or.inl (List.mem_append_right _ List.mem_cons_self)
      · exact Or.inr inside

theorem pair_head (pair : List Char) : (redactPair pair).head? = pair.head? := by
  rcases pair_cases pair with same | ⟨name,value,free,secret,rfl⟩
  · rw [same]
  · rw [pair_secret free secret]
    cases name <;> rfl

theorem query_some {query : List Char} (some : query ≠ []) :
    redactQuery query = '?' :: List.intercalate ['&'] ((query.splitOn '&').map redactPair) := by
  rw [redactQuery,if_neg fun empty => some (List.isEmpty_iff.mp empty)]

theorem splitOn_free (query : List Char) : ∀ pair ∈ query.splitOn '&', '&' ∉ pair := by
  induction length : query.length using Nat.strongRecOn generalizing query with
  | ind _ ih =>
  subst length
  by_cases inside : '&' ∈ query
  · obtain ⟨front,rest,rfl,free⟩ := List.eq_append_cons_of_mem inside
    rw [List.splitOn_append_cons_self_of_not_mem free]
    have shorter : rest.length < (front ++ '&' :: rest).length := by
      rw [List.length_append,List.length_cons]
      omega
    exact List.forall_mem_cons.mpr ⟨free,ih _ shorter rest rfl⟩
  · rw [List.splitOn_eq_singleton inside]
    exact List.forall_mem_singleton.mpr inside

theorem pairs_head (pairs : List (List Char)) :
    (List.intercalate ['&'] (pairs.map redactPair)).head? = (List.intercalate ['&'] pairs).head? := by
  match pairs with
  | [] => rfl
  | [pair] => rw [List.map_singleton,List.intercalate_singleton,List.intercalate_singleton,pair_head]
  | pair :: next :: rest =>
    rw [List.map_cons,List.map_cons,List.intercalate_cons_cons,List.intercalate_cons_cons,List.append_assoc,List.append_assoc,
      List.head?_append,List.head?_append,List.head?_append,List.head?_append,pair_head]
    rfl

theorem query_head {query : List Char} (some : query ≠ []) :
    ∃ pairs, redactQuery query = '?' :: pairs ∧ pairs.head? = query.head? ∧ pairs.splitOn '&' = (query.splitOn '&').map redactPair := by
  refine ⟨_,query_some some,?_,?_⟩
  · rw [pairs_head,List.intercalate_splitOn]
  · refine List.splitOn_intercalate '&' ?_ (List.map_eq_nil_iff.not.mpr (List.splitOn_ne_nil '&' query))
    intro masked inside member
    obtain ⟨pair,split,rfl⟩ := List.mem_map.mp inside
    rcases pair_mem member with member | member
    · exact splitOn_free query pair split member
    · exact absurd member (by decide)

/-- A masked query, without its mark, is masked already. -/
theorem query_idempotent {query : List Char} (plain : query.head? ≠ some '?') :
    redactQuery ((redactQuery query).dropWhile (· == '?')) = redactQuery query := by
  by_cases empty : query = []
  · subst empty
    rfl
  · obtain ⟨pairs,masked,head,split⟩ := query_head empty
    have other : pairs.head? ≠ some '?' := by rwa [head]
    have some : pairs ≠ [] := by
      rintro rfl
      exact empty (List.head?_eq_none_iff.mp head.symm)
    have kept : ('?' :: pairs).dropWhile (· == '?') = pairs := by
      rw [List.dropWhile_cons_of_pos rfl]
      cases pairs with
      | nil => rfl
      | cons c rest => exact List.dropWhile_cons_of_neg fun same => other (congrArg Option.some (beq_iff_eq.mp same))
    have again : ((query.splitOn '&').map redactPair).map redactPair = (query.splitOn '&').map redactPair := by
      rw [List.map_map]
      exact List.map_congr_left fun pair _ => pair_idempotent pair
    rw [masked,kept,query_some some,split,again,← masked,query_some empty]

end Pieces

section Bodies

/-- What the masking of URLs may do to a text. -/
def urlRules : Rules Char where
  mask := mask
  hidden c := !endsUrl c
  mark := '?'
  stop c := c == '?' || c == '#' || endsUrl c
  nonempty := List.cons_ne_nil _ _

variable {text out : List Char}

theorem masked_hidden {stretch : List Char} (inside : ∀ c ∈ stretch, endsUrl c = false) (next : Masked urlRules text out) :
    Masked urlRules (stretch ++ text) (mask ++ out) := by
  refine next.hide stretch fun c member => ?_
  change (!endsUrl c) = true
  rw [inside c member]
  rfl

theorem masked_marks {marks : List Char} (all : ∀ c ∈ marks, c = '?') (next : Masked urlRules text out)
    (stop : ∀ c ∈ out.head?, urlRules.stop c = true) : Masked urlRules (marks ++ text) out := by
  induction marks with
  | nil => exact next
  | cons c marks ih =>
    obtain ⟨rfl,rest⟩ := List.forall_mem_cons.mp all
    exact (ih rest).drop stop

theorem masked_authority {authority : List Char} (inside : ∀ c ∈ authority, endsUrl c = false) (next : Masked urlRules text out) :
    Masked urlRules (authority ++ text) (redactAuthority authority ++ out) := by
  rcases authority_cases authority with same | ⟨user,host,free,rfl⟩
  · rw [same]
    exact next.copies authority
  · rw [authority_last free,List.append_assoc,List.append_assoc]
    exact masked_hidden (fun c member => inside c (List.mem_append_left _ member)) (next.copies ('@' :: host))

theorem masked_pair {pair : List Char} (inside : ∀ c ∈ pair, endsUrl c = false) (next : Masked urlRules text out) :
    Masked urlRules (pair ++ text) (redactPair pair ++ out) := by
  rcases pair_cases pair with same | ⟨name,value,free,secret,rfl⟩
  · rw [same]
    exact next.copies pair
  · rw [pair_secret free secret,List.append_assoc,List.append_assoc]
    refine Masked.copies (Masked.copy '=' ?_) name
    exact masked_hidden (fun c member => inside c (List.mem_append_right name (List.mem_cons_of_mem '=' member))) next

theorem masked_pairs {pairs : List (List Char)} (inside : ∀ pair ∈ pairs, ∀ c ∈ pair, endsUrl c = false) (next : Masked urlRules text out) :
    Masked urlRules (List.intercalate ['&'] pairs ++ text) (List.intercalate ['&'] (pairs.map redactPair) ++ out) := by
  induction pairs with
  | nil => exact next
  | cons pair pairs ih =>
    obtain ⟨here,later⟩ := List.forall_mem_cons.mp inside
    cases pairs with
    | nil =>
      rw [List.map_singleton,List.intercalate_singleton,List.intercalate_singleton]
      exact masked_pair here next
    | cons second pairs =>
      rw [List.map_cons,List.map_cons,List.intercalate_cons_cons,List.intercalate_cons_cons]
      simp only [List.append_assoc]
      exact masked_pair here ((ih later).copy '&')

theorem mem_intercalate {pairs : List (List Char)} {pair : List Char} {c : Char} (split : pair ∈ pairs) (inside : c ∈ pair) :
    c ∈ List.intercalate ['&'] pairs := by
  induction pairs with
  | nil => cases split
  | cons first pairs ih =>
    cases pairs with
    | nil =>
      rw [List.mem_singleton.mp split] at inside
      rwa [List.intercalate_singleton]
    | cons second pairs =>
      rw [List.intercalate_cons_cons]
      rcases List.mem_cons.mp split with rfl | split
      · exact List.mem_append_left _ (List.mem_append_left _ inside)
      · exact List.mem_append_right _ (ih split)

/-- A query is masked, and its marks but one are dropped. -/
theorem masked_query {query : List Char} (inside : ∀ c ∈ query, endsUrl c = false) (mark : ∀ c ∈ query.head?, c = '?')
    (next : Masked urlRules text out) (stop : ∀ c ∈ out.head?, urlRules.stop c = true) :
    Masked urlRules (query ++ text) (redactQuery (query.dropWhile (· == '?')) ++ out) := by
  have cut := @List.takeWhile_append_dropWhile _ (· == '?') query
  have marks (c : Char) (member : c ∈ query.takeWhile (· == '?')) : c = '?' := by
    have same := List.mem_takeWhile_imp member
    simpa using same
  have trimmed (c : Char) (member : c ∈ query.dropWhile (· == '?')) : endsUrl c = false :=
    inside c ((List.dropWhile_sublist _).mem member)
  have plain (c : Char) (first : c ∈ (query.dropWhile (· == '?')).head?) : c ≠ '?' := by
    have stopped := head_dropWhile first
    simpa using stopped
  generalize query.takeWhile (· == '?') = front at *
  generalize query.dropWhile (· == '?') = rest at *
  subst cut
  rw [List.append_assoc]
  by_cases empty : rest = []
  · subst empty
    exact masked_marks marks next stop
  · have joined := @List.intercalate_splitOn _ rest _ _ '&'
    have pairs := masked_pairs (fun pair split c member => trimmed c (joined ▸ mem_intercalate split member)) next
    rw [joined] at pairs
    rcases List.eq_nil_or_concat front with rfl | ⟨more,c,rfl⟩
    · obtain ⟨c,tail,rfl⟩ := List.exists_cons_of_ne_nil empty
      exact absurd (mark c rfl) (plain c rfl)
    · have last := marks c (by simp)
      subst last
      rw [query_some empty]
      have kept := masked_marks (fun c member => marks c (List.concat_eq_append ▸ List.mem_append_left _ member)) (pairs.copy '?') (fun c first => by cases first; rfl)
      simpa using kept

/-- A body is masked. What follows it, if anything, ends a URL. -/
theorem masked_body {body : List Char} (inside : ∀ c ∈ body, endsUrl c = false) (next : Masked urlRules text out)
    (ends : ∀ c ∈ out.head?, endsUrl c = true) : Masked urlRules (body ++ text) (redactUrlBody body ++ out) := by
  obtain ⟨authority,front,query,fragment,parts,rfl⟩ := body_parts body
  rw [parts.read]
  simp only [List.append_assoc]
  have outside (c : Char) (member : c ∈ authority ++ (front ++ query ++ fragment)) : endsUrl c = false := inside c member
  refine masked_authority (fun c member => outside c (by simp [member])) (Masked.copies ?_ front)
  refine masked_query (fun c member => outside c (by simp [member])) parts.mark (next.copies fragment) fun c first => ?_
  cases fragment with
  | nil =>
    have last := ends c first
    change (c == '?' || c == '#' || endsUrl c) = true
    rw [last,Bool.or_true]
  | cons d fragment =>
    rw [parts.hash c first]
    rfl

/-- A masked body is masked already. -/
theorem body_idempotent {body : List Char} (inside : ∀ c ∈ body, endsUrl c = false) :
    redactUrlBody (redactUrlBody body) = redactUrlBody body := by
  obtain ⟨authority,front,query,fragment,parts,rfl⟩ := body_parts body
  have plain : (query.dropWhile (· == '?')).head? ≠ some '?' := by
    intro first
    exact absurd (head_dropWhile first) (by decide)
  have free {c : Char} (member : c ∈ mask) : c = '*' := by simpa [mask] using member
  have masked : Parts (redactAuthority authority) front (redactQuery (query.dropWhile (· == '?'))) fragment := by
    refine ⟨?_,parts.path,parts.slash,?_,?_,parts.hash⟩
    · intro c member
      have hidden := masked_authority (fun c member => inside c (List.mem_append_left _ member)) (@Masked.nil _ urlRules)
      rw [List.append_nil,List.append_nil] at hidden
      rcases hidden.mem_out member with member | member
      · exact parts.host c member
      · rw [free member]
        decide
    · intro c member
      have hidden := masked_query (fun c member => inside c (by simp [member])) parts.mark (@Masked.nil _ urlRules) (fun c first => nomatch first)
      rw [List.append_nil,List.append_nil] at hidden
      rcases hidden.mem_out member with member | member
      · exact parts.plain c member
      · rw [free member]
        decide
    · intro c first
      by_cases empty : query.dropWhile (· == '?') = []
      · rw [empty] at first
        cases first
      · rw [query_some empty] at first
        cases first
        rfl
  rw [parts.read]
  simp only [List.append_assoc]
  have again := masked.read
  simp only [List.append_assoc] at again
  rw [again,authority_idempotent,query_idempotent plain]

end Bodies

end Qdrust.Redact
