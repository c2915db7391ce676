import Qdrust.Redact.Bytes
import Qdrust.Redact.UrlBodies

/-! When a redacted text is redacted already. A bearer token that is masked may be the front of a URL;
what is behind the token is then a text of its own for the second scan. -/
namespace Qdrust.Redact
open Library Masking

section Cuts

variable {d : Char} {front rest : List Char}

theorem takeWhile_before {p : Char → Bool} (stop : p d = false) (front rest : List Char) :
    (front ++ d :: rest).takeWhile p = front.takeWhile p ∧ (front ++ d :: rest).dropWhile p = front.dropWhile p ++ d :: rest := by
  induction front with
  | nil => simp [stop]
  | cons c front ih => cases kept : p c <;> simp [kept,ih]

theorem prefix_before {word : List Char} (absent : d ∉ word) : word <+: front ++ d :: rest ↔ word <+: front := by
  induction word generalizing front with
  | nil => simp
  | cons c word ih =>
    obtain ⟨other,later⟩ := not_or.mp (List.mem_cons.not.mp absent)
    cases front with
    | nil => simp [Ne.symm other]
    | cons e front => simp [ih later]

theorem cut_unique {front' rest' : List Char} (absent : d ∉ front) (absent' : d ∉ front')
    (same : front ++ d :: rest = front' ++ d :: rest') : front = front' ∧ rest = rest' := by
  induction front generalizing front' with
  | nil =>
    cases front' with
    | nil => exact ⟨rfl,(List.cons.inj same).2⟩
    | cons c front' => exact absurd (List.mem_cons.mpr (.inl (List.cons.inj same).1)) absent'
  | cons c front ih =>
    cases front' with
    | nil => exact absurd (List.mem_cons.mpr (.inl (List.cons.inj same).1.symm)) absent
    | cons e front' =>
      obtain ⟨rfl,left⟩ := List.cons.inj same
      obtain ⟨rfl,rfl⟩ := ih (fun inside => absent (List.mem_cons_of_mem c inside))
        (fun inside => absent' (List.mem_cons_of_mem c inside)) left
      exact ⟨rfl,rfl⟩

end Cuts

section Urls

theorem redactUrls_head (text : List Char) : (redactUrls none text).head? = text.head? := by
  by_cases scheme : [':','/','/'] <+: text
  · obtain ⟨tail,rfl⟩ := scheme
    rw [List.cons_append,List.cons_append,List.singleton_append,redactUrls_scheme]
    rfl
  · cases text with
    | nil => rfl
    | cons c text =>
      rw [redactUrls_plain scheme]
      rfl

theorem body_cut (text : List Char) :
    (∀ c ∈ text.takeWhile (fun c => !endsUrl c), endsUrl c = false) ∧
      ∀ c ∈ (text.dropWhile fun c => !endsUrl c).head?, endsUrl c = true := by
  constructor
  · intro c member
    have kept := List.mem_takeWhile_imp member
    simpa using kept
  · intro c first
    have stopped := head_dropWhile first
    simpa using stopped

theorem body_shorter (text : List Char) : (text.dropWhile fun c => !endsUrl c).length < ([':','/','/'] ++ text).length := by
  have less := (@List.dropWhile_sublist _ text fun c => !endsUrl c).length_le
  rw [List.length_append]
  exact Nat.lt_of_le_of_lt less (Nat.lt_add_of_pos_left (by decide))

theorem ends_other {d : Char} (ends : endsUrl d = true) : d ∉ [':','/','/'] := by
  intro inside
  have mark : d = ':' ∨ d = '/' := by simpa using inside
  rcases mark with rfl | rfl <;> exact absurd ends (by decide)

/-- The scan in front of the end of a URL is that of the front. -/
theorem redactUrls_append {d : Char} (ends : endsUrl d = true) (front rest : List Char) :
    redactUrls none (front ++ d :: rest) = redactUrls none front ++ d :: redactUrls none rest := by
  induction length : front.length using Nat.strongRecOn generalizing front with
  | ind _ ih =>
  subst length
  have absent := ends_other ends
  by_cases scheme : [':','/','/'] <+: front
  · obtain ⟨tail,rfl⟩ := scheme
    obtain ⟨taken,dropped⟩ := @takeWhile_before d (fun c => !endsUrl c) (by rw [ends]; rfl) tail rest
    simp only [List.cons_append,List.nil_append]
    rw [redactUrls_scheme,redactUrls_scheme,taken,dropped,ih _ (body_shorter tail) _ rfl]
    simp
  · cases front with
    | nil =>
      have other : ¬ [':','/','/'] <+: d :: rest := (@prefix_before d [] rest _ absent).not.mpr scheme
      rw [List.nil_append,redactUrls_plain other]
      rfl
    | cons c front =>
      have other : ¬ [':','/','/'] <+: c :: (front ++ d :: rest) := (@prefix_before d (c :: front) rest _ absent).not.mpr scheme
      rw [List.cons_append,redactUrls_plain other,redactUrls_plain scheme,ih _ (Nat.lt_succ_self _) front rfl]
      rfl

/-- Stretches of a text are masked, and marks of a query dropped. -/
theorem masked_urls (text : List Char) : Masked urlRules text (redactUrls none text) := by
  induction length : text.length using Nat.strongRecOn generalizing text with
  | ind _ ih =>
  subst length
  by_cases scheme : [':','/','/'] <+: text
  · obtain ⟨tail,rfl⟩ := scheme
    obtain ⟨inside,ends⟩ := body_cut tail
    have masked := masked_body inside (ih _ (body_shorter tail) _ rfl) (by rwa [redactUrls_head])
    rw [List.takeWhile_append_dropWhile] at masked
    rw [List.cons_append,List.cons_append,List.singleton_append,redactUrls_scheme]
    exact ((masked.copy '/').copy '/').copy ':'
  · cases text with
    | nil => exact Masked.nil
    | cons c text =>
      rw [redactUrls_plain scheme]
      exact (ih _ (Nat.lt_succ_self _) text rfl).copy c

theorem mem_redactUrls {text : List Char} {c : Char} (inside : c ∈ redactUrls none text) : c ∈ text ∨ c = '*' := by
  rcases (masked_urls text).mem_out inside with inside | inside
  · exact .inl inside
  · exact .inr (by simpa [urlRules,mask] using inside)

theorem slash_first {text more : List Char} (is : redactUrls none text = '/' :: more) :
    ∃ rest, text = '/' :: rest ∧ redactUrls none rest = more := by
  have head := redactUrls_head text
  rw [is] at head
  obtain ⟨rest,rfl⟩ := List.head?_eq_some_iff.mp head.symm
  have plain : ¬ [':','/','/'] <+: '/' :: rest := fun ⟨_,same⟩ => absurd (List.cons.inj same).1 (by decide)
  rw [redactUrls_plain plain] at is
  exact ⟨rest,rfl,(List.cons.inj is).2⟩

/-- No scheme comes to be in front of what is masked. -/
theorem scheme_masked {c : Char} {text : List Char} (scheme : [':','/','/'] <+: c :: redactUrls none text) :
    [':','/','/'] <+: c :: text := by
  obtain ⟨more,same⟩ := scheme
  obtain ⟨rfl,slashes⟩ := List.cons.inj same
  obtain ⟨rest,rfl,slash⟩ := slash_first slashes.symm
  obtain ⟨rest,rfl,_⟩ := slash_first slash
  exact ⟨rest,rfl⟩

/-- What is masked in a text is masked already. -/
theorem redactUrls_idempotent (text : List Char) : redactUrls none (redactUrls none text) = redactUrls none text := by
  induction length : text.length using Nat.strongRecOn generalizing text with
  | ind _ ih =>
  subst length
  by_cases scheme : [':','/','/'] <+: text
  · obtain ⟨tail,rfl⟩ := scheme
    obtain ⟨inside,ends⟩ := body_cut tail
    rw [List.cons_append,List.cons_append,List.singleton_append,redactUrls_scheme,redactUrls_scheme]
    have body : ∀ c ∈ redactUrlBody (tail.takeWhile fun c => !endsUrl c), endsUrl c = false := by
      intro c member
      have hidden := masked_body inside (@Masked.nil _ urlRules) (fun c first => nomatch first)
      rw [List.append_nil,List.append_nil] at hidden
      rcases hidden.mem_out member with member | member
      · exact inside c member
      · have star : c = '*' := by simpa [urlRules,mask] using member
        rw [star]
        rfl
    obtain ⟨front,back⟩ := @Text.takeWhile_ends (fun c => !endsUrl c) _ (redactUrls none (tail.dropWhile fun c => !endsUrl c))
      (fun c member => by rw [body c member]; rfl)
      (fun c first => by rw [redactUrls_head] at first; rw [ends c first]; rfl)
    rw [front,back,body_idempotent inside,ih _ (body_shorter tail) _ rfl]
  · cases text with
    | nil => rfl
    | cons c text =>
      have again := ih _ (Nat.lt_succ_self _) text rfl
      rw [redactUrls_plain scheme,redactUrls_plain fun masked => scheme (scheme_masked masked),again]

/-- A text that is masked already is so behind the end of any of its URLs. -/
theorem fixed_behind {e : Char} (ends : endsUrl e = true) {front rest : List Char}
    (fixed : redactUrls none (front ++ e :: rest) = front ++ e :: rest) : redactUrls none rest = rest := by
  induction length : front.length using Nat.strongRecOn generalizing front with
  | ind _ ih =>
  subst length
  obtain ⟨inside,stops⟩ := body_cut front
  have cut := @List.takeWhile_append_dropWhile _ (fun c => !endsUrl c) front
  generalize front.takeWhile (fun c => !endsUrl c) = first at *
  generalize front.dropWhile (fun c => !endsUrl c) = later at *
  subst cut
  have outside {d : Char} (ends : endsUrl d = true) : d ∉ first ∧ d ∉ redactUrls none first := by
    have absent : d ∉ first := fun member => by rw [inside d member] at ends; cases ends
    refine ⟨absent,fun member => ?_⟩
    rcases mem_redactUrls member with member | rfl
    · exact absent member
    · exact absurd ends (by decide)
  cases later with
  | nil =>
    rw [List.append_nil,redactUrls_append ends] at fixed
    exact (cut_unique (outside ends).2 (outside ends).1 fixed).2
  | cons d later =>
    have stop := stops d rfl
    rw [List.append_assoc,List.cons_append,redactUrls_append stop] at fixed
    have behind := (cut_unique (outside stop).2 (outside stop).1 fixed).2
    refine ih later.length ?_ behind rfl
    rw [List.length_append,List.length_cons]
    omega

end Urls

section Words

/-- What ends both a URL and a token. -/
def endsBoth (c : Char) : Bool := endsUrl c && endsToken c

def bearer : List Char := ['B','e','a','r','e','r']

/-- A word with its end that a token stands behind. -/
def opens (word : List Char) (d : Char) : Bool := decide (bearer <:+ word ∧ d = ' ')

/-- The state of the scan: inside of a token, where `marked`. -/
def start (marked : Bool) : Option (List Char) := if marked then some [] else none

def maskWord (marked : Bool) (word : List Char) : List Char :=
  if marked then maskToken (word.takeWhile fun c => !endsToken c) ++ word.dropWhile fun c => !endsToken c else word

/-- What is behind the tokens after `Bearer `, up to the end of the URL that a token may be the front of. -/
def behindTokens : Bool → List Char → List (List Char)
  | false,[] => []
  | false,'B' :: 'e' :: 'a' :: 'r' :: 'e' :: 'r' :: ' ' :: rest => behindTokens true rest
  | false,_ :: rest => behindTokens false rest
  | true,[] => []
  | true,c :: rest =>
    if endsToken c then ((c :: rest).takeWhile fun c => !endsUrl c) :: behindTokens false rest else behindTokens true rest

/-- No URL that has something to mask is left behind a token. -/
def Uncut (marked : Bool) (text : List Char) : Prop := ∀ tail ∈ behindTokens marked text, redactUrls none tail = tail

theorem both_token {c : Char} (ends : endsBoth c = true) : endsToken c = true := ((Bool.and_eq_true _ _).mp ends).2

theorem both_url {c : Char} (ends : endsBoth c = true) : endsUrl c = true := ((Bool.and_eq_true _ _).mp ends).1

theorem letter_inside {c : Char} (letter : c ∈ '*' :: bearer) : endsToken c = false := by
  have all : (('*' :: bearer).all fun d => !endsToken d) = true := rfl
  simpa using List.all_eq_true.mp all c letter

theorem behind_plain {c : Char} {text : List Char} (other : ¬ marker <+: c :: text) :
    behindTokens false (c :: text) = behindTokens false text := by
  rw [behindTokens.eq_def]
  split
  · next same => cases same
  · next rest _ same => exact absurd ⟨rest,same.symm⟩ other
  · next same =>
    cases same
    rfl
  · next same _ => cases same
  · next same _ => cases same

theorem uncut_nil : Uncut false [] := fun _ member => nomatch member

/-- What is behind a token. -/
theorem uncut_token (text : List Char) :
    Uncut true text ↔
      redactUrls none ((text.dropWhile fun c => !endsToken c).takeWhile fun c => !endsUrl c) =
          ((text.dropWhile fun c => !endsToken c).takeWhile fun c => !endsUrl c) ∧
        Uncut false (text.dropWhile fun c => !endsToken c) := by
  induction text with
  | nil => exact ⟨fun _ => ⟨rfl,uncut_nil⟩,fun _ _ member => nomatch member⟩
  | cons c text ih =>
    have step : behindTokens true (c :: text) = if endsToken c
      then ((c :: text).takeWhile fun c => !endsUrl c) :: behindTokens false text else behindTokens true text := rfl
    cases ends : endsToken c with
    | true =>
      have letter : c ≠ 'B' := by
        rintro rfl
        exact absurd ends (by decide)
      rw [List.dropWhile_cons_of_neg (by simp [ends]),Uncut,step,if_pos ends,Uncut,behind_plain (other_letter text letter),
        List.forall_mem_cons]
    | false =>
      rw [List.dropWhile_cons_of_pos (by simp [ends]),← ih,Uncut,step,if_neg (by simp [ends]),Uncut]

/-- A marker at the start of a word is the word, and its end a blank. -/
theorem marker_word {word rest : List Char} {d : Char} (free : ∀ c ∈ word, endsBoth c = false) (ends : endsBoth d = true)
    (begins : marker <+: word ++ d :: rest) : word = bearer ∧ d = ' ' := by
  obtain ⟨more,same⟩ := begins
  have blank : ' ' ∉ word := fun inside => absurd (free ' ' inside) (by decide)
  have letters : d ∉ bearer := by
    intro inside
    have token := both_token ends
    rw [letter_inside (List.mem_cons_of_mem _ inside)] at token
    cases token
  change bearer ++ ' ' :: more = word ++ d :: rest at same
  rcases List.append_eq_append_iff.mp same with ⟨more,is,left⟩ | ⟨more,is,left⟩
  · cases more with
    | nil => exact ⟨by rw [is,List.append_nil],(List.cons.inj left).1.symm⟩
    | cons e more =>
      rw [is,(List.cons.inj left).1] at blank
      exact absurd (List.mem_append_right bearer List.mem_cons_self) blank
  · cases more with
    | nil => exact ⟨by rw [is,List.append_nil],(List.cons.inj left).1⟩
    | cons e more =>
      rw [is,(List.cons.inj left).1] at letters
      exact absurd (List.mem_append_right word List.mem_cons_self) letters

theorem opens_cons {c d : Char} {word : List Char} (other : ¬ (c :: word = bearer ∧ d = ' ')) : opens (c :: word) d = opens word d := by
  refine decide_eq_decide.mpr ⟨?_,?_⟩
  · rintro ⟨suffix,blank⟩
    rcases List.suffix_cons_iff.mp suffix with is | inside
    · exact absurd ⟨is.symm,blank⟩ other
    · exact ⟨inside,blank⟩
  · rintro ⟨suffix,blank⟩
    exact ⟨suffix.trans (List.suffix_cons c word),blank⟩

/-- A word outside of a token is copied. Its end may open a token. -/
theorem word_plain {word : List Char} (free : ∀ c ∈ word, endsBoth c = false) {d : Char} (ends : endsBoth d = true) (rest : List Char) :
    redactBearer none (word ++ d :: rest) = word ++ d :: redactBearer (start (opens word d)) rest ∧
      (Uncut false (word ++ d :: rest) ↔ Uncut (opens word d) rest) := by
  induction word with
  | nil =>
    have letter : d ≠ 'B' := by
      rintro rfl
      exact absurd ends (by decide)
    have shut : opens [] d = false := decide_eq_false fun ⟨suffix,_⟩ => absurd (List.suffix_nil.mp suffix) (by decide)
    have other := other_letter rest letter
    rw [List.nil_append,redactBearer_plain other,shut,Uncut,behind_plain other]
    exact ⟨rfl,Iff.rfl⟩
  | cons c word ih =>
    by_cases is : c :: word = bearer ∧ d = ' '
    · obtain ⟨whole,rfl⟩ := is
      have opened : opens bearer ' ' = true := by decide
      rw [whole,opened]
      exact ⟨rfl,Iff.rfl⟩
    · have other : ¬ marker <+: c :: (word ++ d :: rest) := fun begins => is (marker_word free ends begins)
      obtain ⟨copied,same⟩ := ih fun c inside => free c (List.mem_cons_of_mem _ inside)
      rw [List.cons_append,redactBearer_plain other,copied,opens_cons is,Uncut,behind_plain other]
      exact ⟨rfl,same⟩

theorem last_plain {word : List Char} (free : ∀ c ∈ word, endsBoth c = false) :
    redactBearer none word = word ∧ Uncut false word := by
  induction word with
  | nil => exact ⟨rfl,uncut_nil⟩
  | cons c word ih =>
    have other : ¬ marker <+: c :: word := by
      intro begins
      have blank : ' ' ∈ c :: word := begins.subset (by decide)
      exact absurd (free ' ' blank) (by decide)
    obtain ⟨copied,uncut⟩ := ih fun c inside => free c (List.mem_cons_of_mem _ inside)
    rw [redactBearer_plain other,copied,Uncut,behind_plain other]
    exact ⟨rfl,uncut⟩

theorem maskToken_cases (token : List Char) : maskToken token = [] ∨ maskToken token = mask := by
  unfold maskToken
  split
  · next same =>
    rcases (Bool.or_eq_true _ _).mp same with empty | masked
    · exact .inl (List.isEmpty_iff.mp empty)
    · exact .inr (beq_iff_eq.mp masked)
  · exact .inr rfl

theorem mem_maskToken {token : List Char} {c : Char} (inside : c ∈ maskToken token) : c = '*' := by
  rcases maskToken_cases token with is | is
  · rw [is] at inside
    cases inside
  · rw [is] at inside
    simpa [mask] using inside

theorem maskToken_maskToken (token : List Char) : maskToken (maskToken token) = maskToken token := by
  rcases maskToken_cases token with is | is <;> rw [is] <;> rfl

/-- A masked token in front of a word opens nothing. -/
theorem opens_masked (token rest : List Char) (d : Char) : opens (maskToken token ++ rest) d = opens rest d := by
  refine decide_eq_decide.mpr (and_congr_left fun _ => ⟨fun suffix => ?_,fun suffix => suffix.trans (List.suffix_append _ _)⟩)
  obtain ⟨front,same⟩ := suffix
  rcases List.append_eq_append_iff.mp same with ⟨more,is,left⟩ | ⟨more,is,left⟩
  · cases more with
    | nil =>
      rw [List.nil_append] at left
      exact ⟨[],by rw [List.nil_append,left]⟩
    | cons e more =>
      have star : e = '*' := @mem_maskToken token e (by rw [is]; exact List.mem_append_right _ List.mem_cons_self)
      rw [star] at left
      exact absurd (congrArg List.head? left) (by simp [bearer])
  · exact ⟨more,left.symm⟩

/-- What is left of a URL behind the token that a word starts with. -/
def tailOf (word : List Char) : List Char := (word.dropWhile fun c => !endsToken c).takeWhile fun c => !endsUrl c

/-- One word of the scan, and its end. -/
theorem word_scan (marked : Bool) {word : List Char} (free : ∀ c ∈ word, endsBoth c = false) {d : Char} (ends : endsBoth d = true)
    (rest : List Char) :
    redactBearer (start marked) (word ++ d :: rest) =
        maskWord marked word ++ d :: redactBearer (start (opens (maskWord marked word) d)) rest ∧
      (Uncut marked (word ++ d :: rest) ↔
        (marked = true → redactUrls none (tailOf word) = tailOf word) ∧ Uncut (opens (maskWord marked word) d) rest) := by
  cases marked with
  | false =>
    obtain ⟨copied,same⟩ := word_plain free ends rest
    exact ⟨copied,same.trans (by simp [maskWord])⟩
  | true =>
    obtain ⟨taken,dropped⟩ := @takeWhile_before d (fun c => !endsToken c) (by rw [both_token ends]; rfl) word rest
    obtain ⟨cut,_⟩ := @takeWhile_before d (fun c => !endsUrl c) (by rw [both_url ends]; rfl) (word.dropWhile fun c => !endsToken c) rest
    obtain ⟨copied,same⟩ := word_plain (fun c inside => free c ((List.dropWhile_sublist fun c => !endsToken c).mem inside)) ends rest
    have masked : maskWord true word = maskToken (word.takeWhile fun c => !endsToken c) ++ word.dropWhile fun c => !endsToken c := rfl
    constructor
    · change redactBearer (some []) (word ++ d :: rest) = _
      rw [redactBearer_token,taken,dropped,copied,masked,opens_masked]
      simp
    · rw [uncut_token,dropped,cut,same,masked,opens_masked]
      exact and_congr_left fun _ => ⟨fun fixed _ => fixed,fun fixed => fixed rfl⟩

theorem last_scan (marked : Bool) {word : List Char} (free : ∀ c ∈ word, endsBoth c = false) :
    redactBearer (start marked) word = maskWord marked word ∧
      (Uncut marked word ↔ (marked = true → redactUrls none (tailOf word) = tailOf word)) := by
  cases marked with
  | false =>
    obtain ⟨copied,uncut⟩ := last_plain free
    exact ⟨copied,fun _ => nofun,fun _ => uncut⟩
  | true =>
    obtain ⟨copied,uncut⟩ := last_plain fun c inside => free c ((List.dropWhile_sublist fun c => !endsToken c).mem inside)
    constructor
    · change redactBearer (some []) word = _
      rw [redactBearer_token,copied]
      rfl
    · rw [uncut_token]
      exact ⟨fun both _ => both.1,fun fixed => ⟨fixed rfl,uncut⟩⟩

theorem redactUrls_stars {stars : List Char} (all : ∀ c ∈ stars, c = '*') (rest : List Char) :
    redactUrls none (stars ++ rest) = stars ++ redactUrls none rest := by
  induction stars with
  | nil => rfl
  | cons c stars ih =>
    obtain ⟨rfl,others⟩ := List.forall_mem_cons.mp all
    have plain : ¬ [':','/','/'] <+: '*' :: (stars ++ rest) := fun ⟨_,same⟩ => absurd (List.cons.inj same).1 (by decide)
    rw [List.cons_append,redactUrls_plain plain,ih others]
    rfl

/-- Behind the token a word is masked up to the end of the URL it is in, or not at all. -/
theorem tail_fixed {word : List Char} (fixed : redactUrls none word = word) :
    redactUrls none (word.dropWhile fun c => !endsToken c) = (word.dropWhile fun c => !endsToken c) ↔
      redactUrls none (tailOf word) = tailOf word := by
  have token := @List.takeWhile_append_dropWhile _ (fun c => !endsToken c) word
  rw [tailOf]
  generalize word.dropWhile (fun c => !endsToken c) = rest at *
  have cut := @List.takeWhile_append_dropWhile _ (fun c => !endsUrl c) rest
  obtain ⟨inside,stops⟩ := body_cut rest
  generalize rest.takeWhile (fun c => !endsUrl c) = first at *
  generalize rest.dropWhile (fun c => !endsUrl c) = later at *
  subst cut
  cases later with
  | nil => rw [List.append_nil]
  | cons e later =>
    have ends := stops e rfl
    rw [← token,← List.append_assoc] at fixed
    rw [redactUrls_append ends,fixed_behind ends fixed]
    exact List.append_left_inj _

/-- A word that is masked, and then scanned for URLs. -/
theorem mask_fixed (marked : Bool) {word : List Char} (fixed : redactUrls none word = word) :
    redactUrls none (maskWord marked word) = maskWord marked word ↔
      (marked = true → redactUrls none (tailOf word) = tailOf word) := by
  cases marked with
  | false => exact ⟨fun _ => nofun,fun _ => fixed⟩
  | true =>
    rw [maskWord,if_pos rfl,redactUrls_stars fun c => mem_maskToken,List.append_right_inj,tail_fixed fixed]
    exact ⟨fun same _ => same,fun same => same rfl⟩

/-- The second scan leaves the token as the first has left it. -/
theorem mask_again (marked : Bool) (word : List Char) :
    maskWord marked (redactUrls none (maskWord marked word)) = redactUrls none (maskWord marked word) := by
  cases marked with
  | false => rfl
  | true =>
    have masked (rest : List Char) : maskWord true rest =
      maskToken (rest.takeWhile fun c => !endsToken c) ++ rest.dropWhile fun c => !endsToken c := rfl
    obtain ⟨taken,dropped⟩ := @Text.takeWhile_ends (fun c => !endsToken c) (maskToken (word.takeWhile fun c => !endsToken c))
      (redactUrls none (word.dropWhile fun c => !endsToken c))
      (fun c inside => by rw [mem_maskToken inside]; rfl)
      (fun c first => by rw [redactUrls_head] at first; exact head_dropWhile first)
    rw [masked word,redactUrls_stars fun c => mem_maskToken,masked,taken,dropped,maskToken_maskToken]

theorem free_masked {marked : Bool} {word : List Char} (free : ∀ c ∈ word, endsBoth c = false) :
    ∀ c ∈ maskWord marked word, endsBoth c = false := by
  intro c inside
  cases marked with
  | false => exact free c inside
  | true =>
    rcases List.mem_append.mp inside with inside | inside
    · rw [mem_maskToken inside]
      rfl
    · exact free c ((List.dropWhile_sublist fun c => !endsToken c).mem inside)

theorem free_redacted {word : List Char} (free : ∀ c ∈ word, endsBoth c = false) : ∀ c ∈ redactUrls none word, endsBoth c = false := by
  intro c inside
  rcases mem_redactUrls inside with inside | rfl
  · exact free c inside
  · rfl

end Words

section Scans

/-- A text whose URLs are masked stays as its tokens are masked, exactly where none of them cuts a URL that
has something left to mask. -/
theorem scan_fixed (marked : Bool) {text : List Char} (fixed : redactUrls none text = text) :
    redactBearer (start marked) (redactUrls none (redactBearer (start marked) text)) = redactBearer (start marked) text ↔
      Uncut marked text := by
  induction length : text.length using Nat.strongRecOn generalizing marked text with
  | ind _ ih =>
  subst length
  have cut := @List.takeWhile_append_dropWhile _ (fun c => !endsBoth c) text
  have free : ∀ c ∈ text.takeWhile (fun c => !endsBoth c), endsBoth c = false := fun c inside => by
    simpa using List.mem_takeWhile_imp inside
  have stops : ∀ c ∈ (text.dropWhile fun c => !endsBoth c).head?, endsBoth c = true := fun c first => by
    simpa using head_dropWhile first
  generalize text.takeWhile (fun c => !endsBoth c) = word at *
  generalize text.dropWhile (fun c => !endsBoth c) = later at *
  subst cut
  have again := mask_again marked word
  have freeMasked := @free_masked marked word free
  have freeAgain := free_redacted freeMasked
  cases later with
  | nil =>
    rw [List.append_nil] at fixed ⊢
    obtain ⟨scanned,uncut⟩ := last_scan marked free
    rw [scanned,(last_scan marked freeAgain).1,again,uncut]
    exact mask_fixed marked fixed
  | cons d rest =>
    have ends := stops d rfl
    have absent {word : List Char} (free : ∀ c ∈ word, endsBoth c = false) : d ∉ word := fun inside => by
      rw [free d inside] at ends
      cases ends
    rw [redactUrls_append (both_url ends)] at fixed
    obtain ⟨fixedWord,fixedRest⟩ := cut_unique (absent (free_redacted free)) (absent free) fixed
    obtain ⟨scanned,uncut⟩ := word_scan marked free ends rest
    have shorter : rest.length < (word ++ d :: rest).length := by
      rw [List.length_append,List.length_cons]
      omega
    rw [scanned,redactUrls_append (both_url ends),(word_scan marked freeAgain ends _).1,again,uncut,← mask_fixed marked fixedWord]
    constructor
    · intro same
      obtain ⟨masked,left⟩ := cut_unique (absent freeAgain) (absent freeMasked) same
      rw [masked] at left
      exact ⟨masked,(ih _ shorter _ fixedRest rfl).mp left⟩
    · rintro ⟨masked,left⟩
      rw [masked,(ih _ shorter _ fixedRest rfl).mpr left]

end Scans

/-- The redaction of a text comes to an end, and is redacted already exactly where no token behind `Bearer ` cuts a
URL in which something is left to mask. -/
theorem redact_again (text : List Char) :
    ∃ redacted, Bytes.redact text = some redacted ∧
      (Bytes.redact redacted = some redacted ↔
        ∀ tail ∈ behindTokens false (redactUrls none text), redactUrls none tail = tail) := by
  refine ⟨_,Bytes.redact_slices text,?_⟩
  rw [Bytes.redact_slices,Option.some.injEq]
  exact scan_fixed false (redactUrls_idempotent text)

example : behindTokens false "Bearer https://h)http://u:p@host".toList = [")http://u:p@host".toList] := by decide +kernel

end Qdrust.Redact
