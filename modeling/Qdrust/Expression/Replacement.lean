import Mathlib.Algebra.Group.Nat.Defs
import Qdrust.Library.Digits
import Qdrust.Library.Scanner
import Qdrust.Library.Text

/-! Replacements in Python's syntax, translated to the syntax of Rust's regular expressions. -/
namespace Qdrust.Expression.Replacement
open Library Scanner Digits

/-- What the groups of a pattern have matched, those with a name among them. The whole match is the first group. -/
structure Groups where
  count : Nat
  text : Nat → Option (List Char)
  index : List Char → Option Nat
  small : count < 2 ^ 64
  known : ∀ name i, index name = some i → i < count
  named : ∀ name i, index name = some i → ∃ c rest, name = c :: rest ∧ c.isDigit = false ∧ c ≠ '+' ∧ '}' ∉ name

/-- A group that took no part in the match is empty. -/
def Groups.value (groups : Groups) (i : Nat) : List Char := (groups.text i).getD []

section Source

/-- One round of `python_replacement`. -/
def replaceStep : List Char → List Char × List Char
  | [] => ([],[])
  | current :: rest =>
    if current ≠ '\\' then (if current = '$' then ['$','$'] else [current],rest)
    else
      match rest with
      | [] => (['\\'],[])
      | next :: rest' =>
        if next = 'g' then
          match rest' with
          | '<' :: inner => ('$' :: '{' :: (inner.takeWhile (· != '>') ++ ['}']),(inner.dropWhile (· != '>')).tail)
          | _ => (['\\','g'],rest')
        else if next.isDigit then (['$',next],rest')
        else if next = '\\' then (['$','$','\\'],rest')
        else (['\\'],rest)

def pythonReplacement (replacement : List Char) : List Char := scan replaceStep replacement

/-- One round of `translate_python_replacement`. -/
def translateStep : List Char → List Char × List Char
  | [] => ([],[])
  | ch :: rest =>
    if ch ≠ '\\' then ([ch],rest)
    else
      match rest with
      | [] => (['\\'],[])
      | next :: rest' => if next.isDigit ∧ next ≠ '0' then (['$',next],rest') else (['\\',next],rest')

def translatePythonReplacement (replacement : List Char) : List Char := scan translateStep replacement

end Source

section Rust

/-- `[0-9A-Za-z_]`. -/
def capLetter (c : Char) : Bool := c.isAlphanum || c == '_'

/-- `str::parse::<usize>`. -/
def parseUsize (name : List Char) : Option Nat :=
  let digits := if name.head? = some '+' then name.tail else name
  if digits ≠ [] ∧ digits.all Char.isDigit ∧ natValue digits < 2 ^ 64 then some (natValue digits) else none

/-- The name of a group behind a dollar sign, and what follows it. -/
def capRef : List Char → Option (List Char × List Char)
  | '{' :: inner => if '}' ∈ inner then some (inner.takeWhile (· != '}'),(inner.dropWhile (· != '}')).tail) else none
  | rest => if rest.takeWhile capLetter = [] then none else some (rest.takeWhile capLetter,rest.dropWhile capLetter)

def Groups.byName (groups : Groups) (name : List Char) : List Char :=
  match parseUsize name with
  | some i => groups.value i
  | none => ((groups.index name).map groups.value).getD []

def expandStep (groups : Groups) : List Char → List Char × List Char
  | [] => ([],[])
  | c :: rest =>
    if c ≠ '$' then ([c],rest)
    else if rest.head? = some '$' then (['$'],rest.tail)
    else
      match capRef rest with
      | some (name,rest') => (groups.byName name,rest')
      | none => (['$'],rest)

/-- What the expansion of Rust's regular expressions makes of a replacement. -/
def rustExpand (groups : Groups) (replacement : List Char) : List Char := scan (expandStep groups) replacement

end Rust

section Python

def octalDigit (c : Char) : Bool := '0' ≤ c && c ≤ '7'

def octalValue (digits : List Char) : Nat := digits.foldl (fun value c => value * 8 + digitValue c) 0

/-- The letters of the escapes. -/
def templateEscape (c : Char) : Option Char :=
  if c = 'a' then some '\x07'
  else if c = 'b' then some '\x08'
  else if c = 'f' then some '\x0c'
  else if c = 'n' then some '\n'
  else if c = 'r' then some '\r'
  else if c = 't' then some '\t'
  else if c = 'v' then some '\x0b'
  else if c = '\\' then some '\\'
  else none

/-- A reference. A group that the pattern does not have is an error. -/
def Groups.reference (groups : Groups) (i : Nat) : List (Option (List Char)) :=
  [if i < groups.count then some (groups.value i) else none]

/-- `\g<name>`, behind the `g`. -/
def namedReference (groups : Groups) : List Char → List (Option (List Char)) × List Char
  | '<' :: inner =>
    let name := inner.takeWhile (· != '>')
    let rest := (inner.dropWhile (· != '>')).tail
    if '>' ∉ inner ∨ name = [] then ([none],[])
    else if name.all Char.isDigit then (groups.reference (natValue name),rest)
    else
      match groups.index name with
      | some i => (groups.reference i,rest)
      | none => ([none],[])
  | _ => ([none],[])

/-- One or two digits name a group, three octal ones a character. -/
def numberedReference (groups : Groups) (digit : Char) : List Char → List (Option (List Char)) × List Char
  | next :: rest =>
    if next.isDigit then
      if octalDigit digit && octalDigit next && rest.head?.any octalDigit then
        let code := octalValue (digit :: next :: rest.take 1)
        ([if code ≤ 255 then some [Char.ofNat code] else none],rest.tail)
      else (groups.reference (natValue [digit,next]),rest)
    else (groups.reference (natValue [digit]),next :: rest)
  | [] => (groups.reference (natValue [digit]),[])

/-- One token of a template of Python's `re.sub`. A `none` is an error. -/
def templateStep (groups : Groups) : List Char → List (Option (List Char)) × List Char
  | [] => ([],[])
  | c :: rest =>
    if c ≠ '\\' then ([some [c]],rest)
    else
      match rest with
      | [] => ([none],[])
      | next :: rest' =>
        if next = 'g' then namedReference groups rest'
        else if next = '0' then
          let octal := (rest'.take 2).takeWhile octalDigit
          ([some [Char.ofNat (octalValue octal % 256)]],rest'.drop octal.length)
        else if next.isDigit then numberedReference groups next rest'
        else
          match templateEscape next with
          | some escaped => ([some [escaped]],rest')
          | none => ([if next.isAlpha then none else some ['\\',next]],rest')

/-- What Python's `re.sub` puts in for a match. -/
def pythonTemplate (groups : Groups) (replacement : List Char) : Option (List Char) :=
  ((scan (templateStep groups) replacement).mapM id).map List.flatten

end Python

section Conditions

variable (groups : Groups)

/-- One or two digits that name a group, with no word character behind them. -/
structure Reference (digits rest : List Char) : Prop where
  short : digits.length = 1 ∨ digits.length = 2
  digit : ∀ c ∈ digits, c.isDigit = true
  first : digits.head? ≠ some '0'
  known : natValue digits < groups.count
  ends : ∀ c ∈ rest.head?, capLetter c = false

/-- A character that stands for itself behind a backslash. -/
def Symbol (c : Char) : Prop := c.isAlphanum = false ∧ c ≠ '\\'

/-- Replacements of the tokens that `python_replacement` knows, with the number of backslashes that are doubled: there is no letter
behind a backslash but in `\g<…>`, and no reference is followed by a word character. -/
inductive Tokens : Nat → List Char → Prop
  | nil : Tokens 0 []
  | plain {n : Nat} {c : Char} {rest : List Char} (other : c ≠ '\\') : Tokens n rest → Tokens n (c :: rest)
  | symbol {n : Nat} {c : Char} {rest : List Char} (symbol : Symbol c) : Tokens n rest → Tokens n ('\\' :: c :: rest)
  | named {n : Nat} {name rest : List Char} (closed : '>' ∉ name)
      (known : (name ≠ [] ∧ (∀ c ∈ name, c.isDigit = true) ∧ natValue name < groups.count) ∨ (groups.index name).isSome = true) :
      Tokens n rest → Tokens n ('\\' :: 'g' :: '<' :: (name ++ '>' :: rest))
  | numbered {n : Nat} {digits rest : List Char} (reference : Reference groups digits rest) :
      Tokens n rest → Tokens n ('\\' :: (digits ++ rest))
  | doubled {n : Nat} {rest : List Char} : Tokens n rest → Tokens (n + 1) ('\\' :: '\\' :: rest)

/-- Nothing behind a dollar sign makes a reference of it. -/
def FreeDollar (rest : List Char) : Prop :=
  ∀ c ∈ rest.head?, c ≠ '$' ∧ capLetter c = false ∧ (c = '{' → '}' ∉ rest) ∧
    (c = '\\' → ∀ d ∈ rest.tail.head?, d.isDigit = true → d = '0')

/-- The tokens that `translate_python_replacement` knows: besides, there is no `\g<…>`, and no dollar sign is followed by what makes
a reference of it. -/
inductive PluginTokens : Nat → List Char → Prop
  | nil : PluginTokens 0 []
  | plain {n : Nat} {c : Char} {rest : List Char} (other : c ≠ '\\') (free : c = '$' → FreeDollar rest) :
      PluginTokens n rest → PluginTokens n (c :: rest)
  | symbol {n : Nat} {c : Char} {rest : List Char} (symbol : Symbol c) (free : c = '$' → FreeDollar rest) :
      PluginTokens n rest → PluginTokens n ('\\' :: c :: rest)
  | numbered {n : Nat} {digits rest : List Char} (reference : Reference groups digits rest) :
      PluginTokens n rest → PluginTokens n ('\\' :: (digits ++ rest))
  | doubled {n : Nat} {rest : List Char} : PluginTokens n rest → PluginTokens (n + 1) ('\\' :: '\\' :: rest)

end Conditions

section Advances

theorem after_shorter (stop : Char) (text : List Char) : (text.dropWhile (· != stop)).tail.length ≤ text.length :=
  Nat.le_trans (by rw [List.length_tail]; exact Nat.sub_le _ _) (List.dropWhile_sublist _).length_le

theorem replace_advances : Advances replaceStep := by
  intro current rest
  rw [replaceStep.eq_def]
  dsimp only
  split
  · exact Nat.le_refl _
  · cases rest with
    | nil => exact Nat.le_refl _
    | cons next rest =>
      dsimp only
      split
      · split
        · next inner =>
          have shorter := after_shorter '>' inner
          simp only [List.length_cons]
          omega
        · exact Nat.le_succ _
      · split
        · exact Nat.le_succ _
        · split
          · exact Nat.le_succ _
          · exact Nat.le_refl _

theorem translate_advances : Advances translateStep := by
  intro ch rest
  rw [translateStep.eq_def]
  dsimp only
  split
  · exact Nat.le_refl _
  · cases rest with
    | nil => exact Nat.le_refl _
    | cons next rest =>
      dsimp only
      split <;> exact Nat.le_succ _

theorem capRef_shorter {rest name after : List Char} (found : capRef rest = some (name,after)) : after.length ≤ rest.length := by
  rw [capRef.eq_def] at found
  split at found
  · next inner =>
    obtain ⟨_,same⟩ := Option.ite_none_right_eq_some.mp found
    cases same
    exact Nat.le_succ_of_le (after_shorter '}' inner)
  · obtain ⟨_,same⟩ := Option.ite_none_left_eq_some.mp found
    cases same
    exact (List.dropWhile_sublist _).length_le

variable (groups : Groups)

theorem expand_advances : Advances (expandStep groups) := by
  intro c rest
  rw [expandStep]
  split
  · exact Nat.le_refl _
  · split
    · rw [List.length_tail]
      exact Nat.sub_le _ _
    · split
      · next found => exact capRef_shorter found
      · exact Nat.le_refl _

theorem template_advances : Advances (templateStep groups) := by
  have named (rest : List Char) : (namedReference groups rest).2.length ≤ rest.length := by
    rw [namedReference.eq_def]
    split
    · next inner =>
      have shorter : (inner.dropWhile (· != '>')).tail.length ≤ inner.length + 1 := Nat.le_succ_of_le (after_shorter '>' inner)
      dsimp only
      split
      · exact Nat.zero_le _
      · split
        · exact shorter
        · split
          · exact shorter
          · exact Nat.zero_le _
    · exact Nat.zero_le _
  have numbered (digit : Char) (rest : List Char) : (numberedReference groups digit rest).2.length ≤ rest.length := by
    rw [numberedReference.eq_def]
    split
    · next next rest =>
      split
      · split
        · exact Nat.le_trans (by rw [List.length_tail]; exact Nat.sub_le _ _) (Nat.le_succ _)
        · exact Nat.le_succ _
      · exact Nat.le_refl _
    · exact Nat.le_refl _
  intro c rest
  rw [templateStep.eq_def]
  dsimp only
  split
  · exact Nat.le_refl _
  · cases rest with
    | nil => exact Nat.le_refl _
    | cons next rest =>
      have less : rest.length ≤ (next :: rest).length := Nat.le_succ _
      dsimp only
      split
      · exact Nat.le_trans (named rest) less
      · split
        · exact Nat.le_trans (List.drop_sublist _ _).length_le less
        · split
          · exact Nat.le_trans (numbered next rest) less
          · split <;> exact less

end Advances

section Tokens

variable (groups : Groups)

theorem expand_plain {c : Char} (other : c ≠ '$') (rest : List Char) : rustExpand groups (c :: rest) = c :: rustExpand groups rest := by
  rw [rustExpand,scan_cons (expand_advances groups),expandStep,if_pos other]
  rfl

theorem backslash_dollar : '\\' ≠ '$' := by decide

theorem expand_dollars (rest : List Char) : rustExpand groups ('$' :: '$' :: rest) = '$' :: rustExpand groups rest := by
  rw [rustExpand,scan_cons (expand_advances groups),expandStep,if_neg (not_not_intro rfl),List.head?_cons,if_pos rfl]
  rfl

theorem expand_reference {name rest after : List Char} (found : capRef rest = some (name,after)) (other : rest.head? ≠ some '$') :
    rustExpand groups ('$' :: rest) = groups.byName name ++ rustExpand groups after := by
  rw [rustExpand,scan_cons (expand_advances groups),expandStep,if_neg (not_not_intro rfl),if_neg other,found]
  rfl

theorem expand_free {rest : List Char} (other : rest.head? ≠ some '$') (none : capRef rest = none) :
    rustExpand groups ('$' :: rest) = '$' :: rustExpand groups rest := by
  rw [rustExpand,scan_cons (expand_advances groups),expandStep,if_neg (not_not_intro rfl),if_neg other,none]
  rfl

/-- A token of a template, and what it is read as. -/
theorem template_token {text rest value : List Char}
    (token : templateStep groups text = ([some value],rest)) (some : text ≠ []) :
    pythonTemplate groups text = (pythonTemplate groups rest).map (value ++ ·) := by
  obtain ⟨c,tail,rfl⟩ := List.exists_cons_of_ne_nil some
  rw [pythonTemplate,scan_cons (template_advances groups),token,pythonTemplate,List.singleton_append,List.mapM_cons]
  cases (scan (templateStep groups) rest).mapM id <;> rfl

theorem template_plain {c : Char} (other : c ≠ '\\') (rest : List Char) :
    pythonTemplate groups (c :: rest) = (pythonTemplate groups rest).map (c :: ·) := by
  have token : templateStep groups (c :: rest) = ([some [c]],rest) := by
    rw [templateStep.eq_def]
    exact if_pos other
  exact template_token groups token (List.cons_ne_nil c rest)

theorem isAlpha_alphanum {c : Char} (other : c.isAlphanum = false) : c.isAlpha = false ∧ c.isDigit = false :=
  Bool.or_eq_false_iff.mp other

theorem template_symbol {c : Char} (symbol : Symbol c) (rest : List Char) :
    pythonTemplate groups ('\\' :: c :: rest) = (pythonTemplate groups rest).map (['\\',c] ++ ·) := by
  refine template_token groups ?_ (List.cons_ne_nil _ _)
  obtain ⟨letter,digit⟩ := isAlpha_alphanum symbol.1
  have other (d : Char) (inside : d.isAlphanum = true) : c ≠ d := by
    rintro rfl
    rw [symbol.1] at inside
    cases inside
  have none : templateEscape c = .none := by
    rw [templateEscape,if_neg (other 'a' (by decide)),if_neg (other 'b' (by decide)),if_neg (other 'f' (by decide)),
      if_neg (other 'n' (by decide)),if_neg (other 'r' (by decide)),if_neg (other 't' (by decide)),
      if_neg (other 'v' (by decide)),if_neg symbol.2]
  rw [templateStep.eq_def]
  dsimp only
  rw [if_neg (not_not_intro rfl),if_neg (other 'g' (by decide)),if_neg (other '0' (by decide)),digit,if_neg Bool.false_ne_true,
    none,letter]
  rfl

theorem parseUsize_digits {digits : List Char} (some : digits ≠ []) (all : ∀ c ∈ digits, c.isDigit = true)
    (small : natValue digits < 2 ^ 64) : parseUsize digits = .some (natValue digits) := by
  have unsigned : digits.head? ≠ .some '+' := by
    intro plus
    have digit := all '+' (List.mem_of_head? plus)
    exact absurd digit (by decide)
  rw [parseUsize,if_neg unsigned]
  exact if_pos ⟨some,List.all_eq_true.mpr all,small⟩

theorem byName_digits {digits : List Char} (some : digits ≠ []) (all : ∀ c ∈ digits, c.isDigit = true)
    (known : natValue digits < groups.count) : groups.byName digits = groups.value (natValue digits) := by
  rw [Groups.byName,parseUsize_digits some all (Nat.lt_trans known groups.small)]

theorem byName_known {name : List Char} {i : Nat} (known : groups.index name = some i) : groups.byName name = groups.value i := by
  obtain ⟨c,rest,rfl,digit,plus,_⟩ := groups.named name i known
  have unsigned : (c :: rest).head? ≠ some '+' := fun same => plus (Option.some.inj same)
  have none : parseUsize (c :: rest) = .none := by
    rw [parseUsize,if_neg unsigned]
    refine if_neg fun both => ?_
    have first := List.all_eq_true.mp both.2.1 c List.mem_cons_self
    rw [digit] at first
    cases first
  rw [Groups.byName,none,known]
  rfl

theorem reference_known {i : Nat} (known : i < groups.count) : groups.reference i = [some (groups.value i)] := by
  rw [Groups.reference,if_pos known]

/-- A span up to its stop. -/
theorem span_stop {stop : Char} {name : List Char} (free : stop ∉ name) (rest : List Char) :
    (name ++ stop :: rest).takeWhile (· != stop) = name ∧ ((name ++ stop :: rest).dropWhile (· != stop)).tail = rest := by
  have kept : ∀ c ∈ name, (c != stop) = true := fun c inside => bne_iff_ne.mpr fun same => free (same ▸ inside)
  rw [List.takeWhile_append_of_pos kept,List.dropWhile_append_of_pos kept]
  simp

theorem template_named {name rest : List Char} (closed : '>' ∉ name)
    (known : (name ≠ [] ∧ (∀ c ∈ name, c.isDigit = true) ∧ natValue name < groups.count) ∨ (groups.index name).isSome = true) :
    pythonTemplate groups ('\\' :: 'g' :: '<' :: (name ++ '>' :: rest)) =
      (pythonTemplate groups rest).map (groups.byName name ++ ·) := by
  refine template_token groups ?_ (List.cons_ne_nil _ _)
  obtain ⟨front,back⟩ := span_stop closed rest
  have inside : ¬ '>' ∉ name ++ '>' :: rest := not_not_intro (List.mem_append_right _ List.mem_cons_self)
  rw [templateStep.eq_def]
  dsimp only
  rw [if_neg (not_not_intro rfl),if_pos rfl,namedReference,front,back]
  rcases known with ⟨some,all,known⟩ | known
  · rw [if_neg (not_or.mpr ⟨inside,some⟩),if_pos (List.all_eq_true.mpr all),reference_known groups known,
      byName_digits groups some all known]
  · obtain ⟨i,found⟩ := Option.isSome_iff_exists.mp known
    obtain ⟨c,tail,rfl,digit,_,_⟩ := groups.named name i found
    have some : ¬ (c :: tail = []) := List.cons_ne_nil c tail
    have mixed : ¬ (c :: tail).all Char.isDigit = true := by
      intro all
      have first := List.all_eq_true.mp all c List.mem_cons_self
      rw [digit] at first
      cases first
    rw [if_neg (not_or.mpr ⟨inside,some⟩),if_neg mixed,found]
    dsimp only
    rw [reference_known groups (groups.known _ i found),byName_known groups found]

theorem not_digit {c : Char} (other : capLetter c = false) : c.isDigit = false ∧ octalDigit c = false := by
  have digit := (isAlpha_alphanum (Bool.or_eq_false_iff.mp other).1).2
  refine ⟨digit,Bool.eq_false_iff.mpr fun octal => ?_⟩
  obtain ⟨low,high⟩ := Bool.and_eq_true_iff.mp octal
  have least : 48 ≤ c.toNat := of_decide_eq_true low
  have most : c.toNat ≤ 55 := of_decide_eq_true high
  rw [isDigit_iff.mpr ⟨least,by omega⟩] at digit
  cases digit

theorem template_numbered {digits rest : List Char} (reference : Reference groups digits rest) :
    pythonTemplate groups ('\\' :: (digits ++ rest)) = (pythonTemplate groups rest).map (groups.byName digits ++ ·) := by
  refine template_token groups ?_ (List.cons_ne_nil _ _)
  obtain ⟨short,digit,first,known,ends⟩ := reference
  have some : digits ≠ [] := by
    rintro rfl
    rcases short with length | length <;> cases length
  rw [byName_digits groups some digit known,← reference_known groups known]
  have head : ∀ d tail, digits = d :: tail → templateStep groups ('\\' :: d :: (tail ++ rest)) = numberedReference groups d (tail ++ rest) := by
    rintro d tail rfl
    have isDigit := digit d List.mem_cons_self
    have letter : d ≠ 'g' := by
      rintro rfl
      exact absurd isDigit (by decide)
    have nonzero : d ≠ '0' := fun zero => first (congrArg Option.some zero)
    rw [templateStep.eq_def]
    dsimp only
    rw [if_neg (not_not_intro rfl),if_neg letter,if_neg nonzero,if_pos isDigit]
  rcases short with length | length
  · obtain ⟨d,rfl⟩ := List.length_eq_one_iff.mp length
    refine (head d [] rfl).trans ?_
    cases rest with
    | nil => rfl
    | cons c rest =>
      have other := (not_digit (ends c rfl)).1
      change (if c.isDigit = true then _ else _) = _
      rw [other,if_neg Bool.false_ne_true]
  · obtain ⟨d,e,rfl⟩ := List.length_eq_two.mp length
    have taken : templateStep groups ('\\' :: d :: e :: rest) = numberedReference groups d (e :: rest) := head d [e] rfl
    refine taken.trans ?_
    have second := digit e (List.mem_cons_of_mem _ List.mem_cons_self)
    have third : rest.head?.any octalDigit = false := by
      cases rest with
      | nil => rfl
      | cons c rest => exact (not_digit (ends c rfl)).2
    change (if e.isDigit = true then _ else _) = (groups.reference (natValue [d,e]),rest)
    rw [if_pos second,third,Bool.and_false,if_neg Bool.false_ne_true]

end Tokens

section Spans

theorem capRef_word {rest : List Char} (other : rest.head? ≠ some '{') :
    capRef rest = if rest.takeWhile capLetter = [] then none else some (rest.takeWhile capLetter,rest.dropWhile capLetter) := by
  rw [capRef.eq_def]
  split
  · exact absurd rfl other
  · rfl

theorem digit_capLetter {c : Char} (digit : c.isDigit = true) : capLetter c = true :=
  Bool.or_eq_true_iff.mpr (Or.inl (Bool.or_eq_true_iff.mpr (Or.inr digit)))

theorem capRef_digits {digits rest : List Char} (some : digits ≠ []) (digit : ∀ c ∈ digits, c.isDigit = true)
    (ends : ∀ c ∈ rest.head?, capLetter c = false) : capRef (digits ++ rest) = .some (digits,rest) := by
  obtain ⟨front,back⟩ := Text.takeWhile_ends (fun c inside => digit_capLetter (digit c inside)) ends
  obtain ⟨c,tail,rfl⟩ := List.exists_cons_of_ne_nil some
  have other : ((c :: tail) ++ rest).head? ≠ .some '{' := by
    intro brace
    have isDigit := digit c List.mem_cons_self
    rw [Option.some.inj brace] at isDigit
    exact absurd isDigit (by decide)
  rw [capRef_word other,front,back,if_neg (List.cons_ne_nil c tail)]

theorem capRef_named {name rest : List Char} (free : '}' ∉ name) : capRef ('{' :: (name ++ '}' :: rest)) = some (name,rest) := by
  obtain ⟨front,back⟩ := span_stop free rest
  rw [capRef,if_pos (List.mem_append_right _ List.mem_cons_self),front,back]

variable (groups : Groups)

theorem expand_numbered {digits rest : List Char} (some : digits ≠ []) (digit : ∀ c ∈ digits, c.isDigit = true)
    (ends : ∀ c ∈ rest.head?, capLetter c = false) :
    rustExpand groups ('$' :: (digits ++ rest)) = groups.byName digits ++ rustExpand groups rest := by
  refine expand_reference groups (capRef_digits some digit ends) ?_
  obtain ⟨c,tail,rfl⟩ := List.exists_cons_of_ne_nil some
  intro dollar
  have isDigit := digit c List.mem_cons_self
  rw [Option.some.inj dollar] at isDigit
  exact absurd isDigit (by decide)

theorem expand_named {name rest : List Char} (free : '}' ∉ name) :
    rustExpand groups ('$' :: '{' :: (name ++ '}' :: rest)) = groups.byName name ++ rustExpand groups rest :=
  expand_reference groups (capRef_named free) (by simp)

end Spans

section Replace

theorem replace_plain {c : Char} (other : c ≠ '\\') (rest : List Char) :
    pythonReplacement (c :: rest) = (if c = '$' then ['$','$'] else [c]) ++ pythonReplacement rest := by
  rw [pythonReplacement,scan_cons replace_advances,replaceStep.eq_def]
  dsimp only
  rw [if_pos other]
  rfl

/-- A backslash before a character that is none of a reference stays. -/
theorem replace_symbol {c : Char} (symbol : Symbol c) (rest : List Char) :
    pythonReplacement ('\\' :: c :: rest) = '\\' :: pythonReplacement (c :: rest) := by
  obtain ⟨_,digit⟩ := isAlpha_alphanum symbol.1
  have letter : c ≠ 'g' := by
    rintro rfl
    exact absurd symbol.1 (by decide)
  rw [pythonReplacement,scan_cons replace_advances,replaceStep.eq_def]
  dsimp only
  rw [if_neg (not_not_intro rfl),if_neg letter,digit,if_neg Bool.false_ne_true,if_neg symbol.2]
  rfl

theorem replace_named {name : List Char} (closed : '>' ∉ name) (rest : List Char) :
    pythonReplacement ('\\' :: 'g' :: '<' :: (name ++ '>' :: rest)) = '$' :: '{' :: (name ++ '}' :: pythonReplacement rest) := by
  obtain ⟨front,back⟩ := span_stop closed rest
  have token (inner : List Char) : replaceStep ('\\' :: 'g' :: '<' :: inner) =
      ('$' :: '{' :: (inner.takeWhile (· != '>') ++ ['}']),(inner.dropWhile (· != '>')).tail) := rfl
  rw [pythonReplacement,scan_cons replace_advances,token,front,back]
  simp [pythonReplacement]

theorem replace_digit {d : Char} (digit : d.isDigit = true) (rest : List Char) :
    pythonReplacement ('\\' :: d :: rest) = '$' :: d :: pythonReplacement rest := by
  have letter : d ≠ 'g' := by
    rintro rfl
    exact absurd digit (by decide)
  rw [pythonReplacement,scan_cons replace_advances,replaceStep.eq_def]
  dsimp only
  rw [if_neg (not_not_intro rfl),if_neg letter,if_pos digit]
  rfl

/-- A digit behind a reference of one digit belongs to the name, too. -/
theorem replace_numbered {digits : List Char} (short : digits.length = 1 ∨ digits.length = 2)
    (digit : ∀ c ∈ digits, c.isDigit = true) (rest : List Char) :
    pythonReplacement ('\\' :: (digits ++ rest)) = '$' :: (digits ++ pythonReplacement rest) := by
  rcases short with length | length
  · obtain ⟨d,rfl⟩ := List.length_eq_one_iff.mp length
    exact replace_digit (digit d List.mem_cons_self) rest
  · obtain ⟨d,e,rfl⟩ := List.length_eq_two.mp length
    have second := digit e (List.mem_cons_of_mem _ List.mem_cons_self)
    have plain : e ≠ '\\' ∧ e ≠ '$' := by
      constructor <;> (rintro rfl; exact absurd second (by decide))
    refine (replace_digit (digit d List.mem_cons_self) (e :: rest)).trans ?_
    rw [replace_plain plain.1,if_neg plain.2]
    rfl

/-- The dollar sign that escapes the backslash is none to Python. -/
theorem replace_doubled (rest : List Char) :
    pythonReplacement ('\\' :: '\\' :: rest) = '$' :: '$' :: '\\' :: pythonReplacement rest := by
  rw [pythonReplacement,scan_cons replace_advances]
  rfl

/-- The text of a token starts like the token, or with a dollar sign. -/
theorem replace_head (c : Char) (rest : List Char) :
    (pythonReplacement (c :: rest)).head? = some c ∨ (pythonReplacement (c :: rest)).head? = some '$' := by
  have first : (replaceStep (c :: rest)).1.head? = some c ∨ (replaceStep (c :: rest)).1.head? = some '$' := by
    rw [replaceStep.eq_def]
    dsimp only
    split
    · split
      · exact Or.inr rfl
      · exact Or.inl rfl
    · next same =>
      rw [not_not.mp same]
      cases rest with
      | nil => exact Or.inl rfl
      | cons next rest =>
        dsimp only
        split
        · split
          · exact Or.inr rfl
          · exact Or.inl rfl
        · split
          · exact Or.inr rfl
          · split
            · exact Or.inr rfl
            · exact Or.inl rfl
  rw [pythonReplacement,scan_cons replace_advances,List.head?_append]
  rcases first with same | same <;> rw [same]
  · exact Or.inl rfl
  · exact Or.inr rfl

theorem replace_ends {rest : List Char} (ends : ∀ c ∈ rest.head?, capLetter c = false) :
    ∀ c ∈ (pythonReplacement rest).head?, capLetter c = false := by
  cases rest with
  | nil => exact ends
  | cons first rest =>
    intro c inside
    rcases replace_head first rest with same | same <;> rw [same] at inside <;> cases inside
    · exact ends _ rfl
    · decide

end Replace

section Translate

theorem translate_plain {c : Char} (other : c ≠ '\\') (rest : List Char) :
    translatePythonReplacement (c :: rest) = c :: translatePythonReplacement rest := by
  rw [translatePythonReplacement,scan_cons translate_advances,translateStep.eq_def]
  dsimp only
  rw [if_pos other]
  rfl

theorem translate_symbol {c : Char} (other : c.isDigit = false) (rest : List Char) :
    translatePythonReplacement ('\\' :: c :: rest) = '\\' :: c :: translatePythonReplacement rest := by
  rw [translatePythonReplacement,scan_cons translate_advances,translateStep.eq_def]
  dsimp only
  rw [if_neg (not_not_intro rfl),if_neg fun both => Bool.eq_false_iff.mp other both.1]
  rfl

theorem translate_zero (rest : List Char) :
    translatePythonReplacement ('\\' :: '0' :: rest) = '\\' :: '0' :: translatePythonReplacement rest := by
  rw [translatePythonReplacement,scan_cons translate_advances]
  rfl

theorem translate_digit {d : Char} (digit : d.isDigit = true) (nonzero : d ≠ '0') (rest : List Char) :
    translatePythonReplacement ('\\' :: d :: rest) = '$' :: d :: translatePythonReplacement rest := by
  rw [translatePythonReplacement,scan_cons translate_advances,translateStep.eq_def]
  dsimp only
  rw [if_neg (not_not_intro rfl),if_pos ⟨digit,nonzero⟩]
  rfl

theorem translate_numbered {digits : List Char} (short : digits.length = 1 ∨ digits.length = 2)
    (digit : ∀ c ∈ digits, c.isDigit = true) (first : digits.head? ≠ some '0') (rest : List Char) :
    translatePythonReplacement ('\\' :: (digits ++ rest)) = '$' :: (digits ++ translatePythonReplacement rest) := by
  rcases short with length | length
  · obtain ⟨d,rfl⟩ := List.length_eq_one_iff.mp length
    exact translate_digit (digit d List.mem_cons_self) (fun zero => first (congrArg some zero)) rest
  · obtain ⟨d,e,rfl⟩ := List.length_eq_two.mp length
    have second := digit e (List.mem_cons_of_mem _ List.mem_cons_self)
    have plain : e ≠ '\\' := by
      rintro rfl
      exact absurd second (by decide)
    refine (translate_digit (digit d List.mem_cons_self) (fun zero => first (congrArg some zero)) (e :: rest)).trans ?_
    rw [translate_plain plain]
    rfl

/-- How the text of what follows a token starts. -/
theorem translate_cases (text : List Char) :
    text = [] ∨ (∃ c rest, c ≠ '\\' ∧ text = c :: rest ∧ translatePythonReplacement text = c :: translatePythonReplacement rest) ∨
    (text.head? = some '\\' ∧ (∀ d ∈ text.tail.head?, d.isDigit = true → d = '0') ∧
      (translatePythonReplacement text).head? = some '\\') ∨
    (text.head? = some '\\' ∧ (∃ d ∈ text.tail.head?, d.isDigit = true ∧ d ≠ '0') ∧
      (translatePythonReplacement text).head? = some '$') := by
  cases text with
  | nil => exact Or.inl rfl
  | cons c rest =>
    right
    by_cases other : c ≠ '\\'
    · exact Or.inl ⟨c,rest,other,rfl,translate_plain other rest⟩
    · rw [not_not.mp other]
      right
      cases rest with
      | nil => exact Or.inl ⟨rfl,(fun d inside => nomatch inside),rfl⟩
      | cons d rest =>
        cases digit : d.isDigit with
        | false =>
          refine Or.inl ⟨rfl,fun e inside => ?_,?_⟩
          · cases inside
            rw [digit]
            exact fun isDigit => by cases isDigit
          · rw [translate_symbol digit]
            rfl
        | true =>
          by_cases zero : d = '0'
          · rw [zero]
            exact Or.inl ⟨rfl,fun e inside _ => by cases inside; rfl,by rw [translate_zero]; rfl⟩
          · exact Or.inr ⟨rfl,⟨d,rfl,digit,zero⟩,by rw [translate_digit digit zero]; rfl⟩

theorem translate_ends {rest : List Char} (ends : ∀ c ∈ rest.head?, capLetter c = false) :
    ∀ c ∈ (translatePythonReplacement rest).head?, capLetter c = false := by
  intro c inside
  rcases translate_cases rest with rfl | ⟨first,tail,_,rfl,same⟩ | ⟨_,_,same⟩ | ⟨_,_,same⟩
  · exact ends c inside
  · rw [same] at inside
    exact ends c inside
  all_goals
    rw [same] at inside
    cases inside
    decide

theorem translateStep_members (first : Char) (rest : List Char) :
    (∀ c ∈ (translateStep (first :: rest)).1, c = '$' ∨ c ∈ first :: rest) ∧
      ∀ c ∈ (translateStep (first :: rest)).2, c ∈ first :: rest := by
  by_cases other : first ≠ '\\'
  · have token : translateStep (first :: rest) = ([first],rest) := if_pos other
    rw [token]
    exact ⟨fun c inside => Or.inr (List.mem_of_mem_head? (List.mem_singleton.mp inside ▸ rfl)),fun c => List.mem_cons_of_mem first⟩
  · rw [not_not.mp other]
    cases rest with
    | nil => exact ⟨fun c inside => Or.inr inside,(fun c inside => nomatch inside)⟩
    | cons next rest =>
      have token : translateStep ('\\' :: next :: rest) =
          if next.isDigit ∧ next ≠ '0' then (['$',next],rest) else (['\\',next],rest) := rfl
      rw [token]
      split
      · constructor
        · intro c inside
          rcases List.mem_cons.mp inside with same | inside
          · exact Or.inl same
          · exact Or.inr (by simp [List.mem_singleton.mp inside])
        · exact fun c inside => List.mem_cons_of_mem _ (List.mem_cons_of_mem _ inside)
      · constructor
        · intro c inside
          exact Or.inr (List.mem_append_left rest inside)
        · exact fun c inside => List.mem_cons_of_mem _ (List.mem_cons_of_mem _ inside)

theorem translate_members {c : Char} (text : List Char) (inside : c ∈ translatePythonReplacement text) : c = '$' ∨ c ∈ text := by
  induction text using scan_induction translate_advances with
  | empty => cases inside
  | piece first rest ih =>
    rw [translatePythonReplacement,scan_cons translate_advances] at inside
    obtain ⟨token,after⟩ := translateStep_members first rest
    rcases List.mem_append.mp inside with inside | inside
    · exact token c inside
    · exact (ih inside).imp_right (after c)

end Translate

section Results

variable (groups : Groups)

/-- A dollar sign that nothing makes a reference of stays one. -/
theorem expand_dollar {rest : List Char} (free : FreeDollar rest) :
    rustExpand groups ('$' :: translatePythonReplacement rest) = '$' :: rustExpand groups (translatePythonReplacement rest) := by
  have alone (text : List Char) (dollar : text.head? ≠ some '$') (brace : text.head? ≠ some '{')
      (ends : ∀ c ∈ text.head?, capLetter c = false) : rustExpand groups ('$' :: text) = '$' :: rustExpand groups text := by
    refine expand_free groups dollar ?_
    rw [capRef_word brace]
    exact if_pos (@Text.takeWhile_ends capLetter [] text (fun c inside => nomatch inside) ends).1
  rcases translate_cases rest with rfl | ⟨c,tail,other,rfl,same⟩ | ⟨first,_,same⟩ | ⟨first,⟨d,second,digit,nonzero⟩,_⟩
  · exact alone [] (fun same => nomatch same) (fun same => nomatch same) (fun c inside => nomatch inside)
  · obtain ⟨dollar,letter,brace,_⟩ := free c rfl
    rw [same]
    have first : (c :: translatePythonReplacement tail).head? ≠ some '$' := fun same => dollar (Option.some.inj same)
    by_cases opens : c = '{'
    · refine expand_free groups first ?_
      have unclosed := brace opens
      rw [opens] at unclosed ⊢
      rw [capRef]
      refine if_neg fun inside => ?_
      rcases translate_members tail inside with same | inside
      · exact absurd same (by decide)
      · exact unclosed (List.mem_cons_of_mem _ inside)
    · refine alone _ first (fun same => opens (Option.some.inj same)) fun d inside => ?_
      cases inside
      exact letter
  · refine alone _ ?_ ?_ fun c inside => ?_ <;> rw [same] at *
    · decide
    · decide
    · cases inside
      decide
  · obtain ⟨_,_,_,digits⟩ := free '\\' first
    exact absurd (digits rfl d second digit) nonzero

theorem expand_letter {c : Char} {rest : List Char} (free : c = '$' → FreeDollar rest) :
    rustExpand groups (c :: translatePythonReplacement rest) = c :: rustExpand groups (translatePythonReplacement rest) := by
  by_cases dollar : c = '$'
  · have same := expand_dollar groups (free dollar)
    rwa [← dollar] at same
  · exact expand_plain groups dollar _

theorem expand_replaced {c : Char} (other : c ≠ '\\') (rest : List Char) :
    rustExpand groups (pythonReplacement (c :: rest)) = c :: rustExpand groups (pythonReplacement rest) := by
  rw [replace_plain other]
  by_cases dollar : c = '$'
  · rw [if_pos dollar,dollar]
    exact expand_dollars groups _
  · rw [if_neg dollar]
    exact expand_plain groups dollar _

theorem Reference.some {digits rest : List Char} (reference : Reference groups digits rest) : digits ≠ [] := by
  rintro rfl
  rcases reference.short with length | length <;> cases length

/-- A text of the tokens is read as one value, and every doubled backslash makes the code's one longer. -/
def Longer (n : Nat) (template : Option (List Char)) (expanded : List Char) : Prop :=
  ∃ value, template = some value ∧ expanded.length = value.length + n ∧ (n = 0 → expanded = value)

theorem Longer.token {n : Nat} {template : Option (List Char)} {expanded : List Char} (longer : Longer n template expanded)
    (piece : List Char) : Longer n (template.map (piece ++ ·)) (piece ++ expanded) := by
  obtain ⟨value,rfl,length,same⟩ := longer
  refine ⟨piece ++ value,rfl,?_,fun zero => by rw [same zero]⟩
  rw [List.length_append,List.length_append,length,Nat.add_assoc]

theorem Longer.doubled {n : Nat} {template : Option (List Char)} {expanded : List Char} (longer : Longer n template expanded)
    (first : Char) : Longer (n + 1) (template.map ('\\' :: ·)) (first :: '\\' :: expanded) := by
  obtain ⟨value,rfl,length,_⟩ := longer
  refine ⟨'\\' :: value,rfl,?_,fun zero => nomatch zero⟩
  simp only [List.length_cons,length]
  omega

theorem Longer.same_iff {n : Nat} {template : Option (List Char)} {expanded : List Char} (longer : Longer n template expanded) :
    template = some expanded ↔ n = 0 := by
  obtain ⟨value,rfl,length,same⟩ := longer
  constructor
  · intro equal
    rw [Option.some.inj equal] at length
    omega
  · exact fun zero => by rw [same zero]

theorem template_doubled (rest : List Char) :
    pythonTemplate groups ('\\' :: '\\' :: rest) = (pythonTemplate groups rest).map ('\\' :: ·) := by
  have token : templateStep groups ('\\' :: '\\' :: rest) = ([some ['\\']],rest) := rfl
  exact template_token groups token (List.cons_ne_nil _ _)

/-- Token by token, `re_sub` puts in what Python does, but for the doubled backslashes. -/
theorem re_sub_longer {n : Nat} {text : List Char} (tokens : Tokens groups n text) :
    Longer n (pythonTemplate groups text) (rustExpand groups (pythonReplacement text)) := by
  induction tokens with
  | nil => exact ⟨[],rfl,rfl,fun _ => rfl⟩
  | @plain n c rest other _ ih =>
    rw [template_plain groups other,expand_replaced groups other]
    exact ih.token [c]
  | @symbol n c rest symbol _ ih =>
    rw [template_symbol groups symbol,replace_symbol symbol,expand_plain groups backslash_dollar,expand_replaced groups symbol.2]
    exact ih.token ['\\',c]
  | @named n name rest closed known _ ih =>
    have free : '}' ∉ name := by
      rcases known with ⟨_,digit,_⟩ | known
      · intro inside
        exact absurd (digit _ inside) (by decide)
      · obtain ⟨i,found⟩ := Option.isSome_iff_exists.mp known
        obtain ⟨_,_,_,_,_,free⟩ := groups.named name i found
        exact free
    rw [template_named groups closed known,replace_named closed,expand_named groups free]
    exact ih.token _
  | numbered reference _ ih =>
    rw [template_numbered groups reference,replace_numbered reference.short reference.digit,
      expand_numbered groups (reference.some groups) reference.digit (replace_ends reference.ends)]
    exact ih.token _
  | @doubled n rest _ ih =>
    rw [template_doubled,replace_doubled,expand_dollars,expand_plain groups backslash_dollar]
    exact ih.doubled '$'

/-- Token by token, the plugin puts in what Python does, but for the doubled backslashes. -/
theorem plugin_longer {n : Nat} {text : List Char} (tokens : PluginTokens groups n text) :
    Longer n (pythonTemplate groups text) (rustExpand groups (translatePythonReplacement text)) := by
  induction tokens with
  | nil => exact ⟨[],rfl,rfl,fun _ => rfl⟩
  | @plain n c rest other free _ ih =>
    rw [template_plain groups other,translate_plain other,expand_letter groups free]
    exact ih.token [c]
  | @symbol n c rest symbol free _ ih =>
    rw [template_symbol groups symbol,translate_symbol (isAlpha_alphanum symbol.1).2,expand_plain groups backslash_dollar,
      expand_letter groups free]
    exact ih.token ['\\',c]
  | numbered reference _ ih =>
    rw [template_numbered groups reference,translate_numbered reference.short reference.digit reference.first,
      expand_numbered groups (reference.some groups) reference.digit (translate_ends reference.ends)]
    exact ih.token _
  | @doubled n rest _ ih =>
    rw [template_doubled,translate_symbol (by decide),expand_plain groups backslash_dollar,expand_plain groups backslash_dollar]
    exact ih.doubled '\\'

theorem PluginTokens.tokens {n : Nat} {text : List Char} (tokens : PluginTokens groups n text) : Tokens groups n text := by
  induction tokens with
  | nil => exact Tokens.nil
  | plain other _ _ ih => exact Tokens.plain other ih
  | symbol symbol _ _ ih => exact Tokens.symbol symbol ih
  | numbered reference _ ih => exact Tokens.numbered reference ih
  | doubled _ ih => exact Tokens.doubled ih

/-- What the two put in for the same token, with the same text behind it or not. -/
def Apart (n : Nat) (first second : List Char) : Prop := first = second ↔ n = 0

theorem Apart.token {n : Nat} {first second : List Char} (apart : Apart n first second) (piece : List Char) :
    Apart n (piece ++ first) (piece ++ second) := by
  rw [Apart,List.append_cancel_left_eq]
  exact apart

/-- The two agree on the tokens that both know exactly when no backslash is doubled. -/
theorem translators_apart {n : Nat} {text : List Char} (tokens : PluginTokens groups n text) :
    Apart n (rustExpand groups (translatePythonReplacement text)) (rustExpand groups (pythonReplacement text)) := by
  induction tokens with
  | nil => exact ⟨fun _ => rfl,fun _ => rfl⟩
  | @plain n c rest other free _ ih =>
    rw [translate_plain other,expand_letter groups free,expand_replaced groups other]
    exact ih.token [c]
  | @symbol n c rest symbol free _ ih =>
    rw [replace_symbol symbol,translate_symbol (isAlpha_alphanum symbol.1).2,expand_plain groups backslash_dollar,
      expand_plain groups backslash_dollar,expand_letter groups free,expand_replaced groups symbol.2]
    exact ih.token ['\\',c]
  | numbered reference _ ih =>
    rw [replace_numbered reference.short reference.digit,
      translate_numbered reference.short reference.digit reference.first,
      expand_numbered groups (reference.some groups) reference.digit (translate_ends reference.ends),
      expand_numbered groups (reference.some groups) reference.digit (replace_ends reference.ends)]
    exact ih.token _
  | @doubled n rest _ _ =>
    rw [replace_doubled,expand_dollars,translate_symbol (by decide),expand_plain groups backslash_dollar]
    exact ⟨fun same => absurd (List.cons.inj same).1 (by decide),fun zero => nomatch zero⟩

/-- A replacement of the tokens that a translator knows puts in what it does in Python exactly when no backslash of it is doubled, and
exactly then the two agree on it. -/
theorem replacement_iff (n : Nat) (text : List Char) :
    (Tokens groups n text → (pythonTemplate groups text = some (rustExpand groups (pythonReplacement text)) ↔ n = 0)) ∧
    (PluginTokens groups n text →
      (pythonTemplate groups text = some (rustExpand groups (translatePythonReplacement text)) ↔ n = 0) ∧
      (rustExpand groups (translatePythonReplacement text) = rustExpand groups (pythonReplacement text) ↔ n = 0)) := by
  refine ⟨fun tokens => (re_sub_longer groups tokens).same_iff,fun tokens => ⟨?_,translators_apart groups tokens⟩⟩
  exact (plugin_longer groups tokens).same_iff

/-- The match of `(a)(?P<w>b)` in `ab`. -/
def sampleGroups : Groups where
  count := 3
  text i := if i = 0 then some ['a','b'] else if i = 1 then some ['a'] else if i = 2 then some ['b'] else none
  index name := if name = ['w'] then some 2 else none
  small := by decide
  known := by
    intro name i found
    obtain ⟨_,same⟩ := Option.ite_none_right_eq_some.mp found
    cases same
    decide
  named := by
    intro name i found
    obtain ⟨same,_⟩ := Option.ite_none_right_eq_some.mp found
    exact ⟨'w',[],same,by decide,by decide,same ▸ by decide⟩

/-- `$\g<w>\1-` and `\2\1.` -/
theorem letters_swapped :
    pythonTemplate sampleGroups ['$','\\','g','<','w','>','\\','1','-'] =
      some (rustExpand sampleGroups (pythonReplacement ['$','\\','g','<','w','>','\\','1','-'])) ∧
    pythonTemplate sampleGroups ['\\','2','\\','1','.'] =
      some (rustExpand sampleGroups (translatePythonReplacement ['\\','2','\\','1','.'])) := by
  have one (c : Char) (rest : List Char) (ends : capLetter c = false) : Reference sampleGroups ['1'] (c :: rest) :=
    ⟨Or.inl rfl,List.forall_mem_singleton.mpr rfl,by decide,by decide,fun d inside => Option.some.inj inside ▸ ends⟩
  have two (c : Char) (rest : List Char) (ends : capLetter c = false) : Reference sampleGroups ['2'] (c :: rest) :=
    ⟨Or.inl rfl,List.forall_mem_singleton.mpr rfl,by decide,by decide,fun d inside => Option.some.inj inside ▸ ends⟩
  have first : Tokens sampleGroups 0 ['$','\\','g','<','w','>','\\','1','-'] :=
    Tokens.plain (by decide) (@Tokens.named _ _ ['w'] ['\\','1','-'] (by decide) (Or.inr rfl)
      (@Tokens.numbered _ _ ['1'] ['-'] (one '-' [] rfl) (Tokens.plain (by decide) Tokens.nil)))
  have second : PluginTokens sampleGroups 0 ['\\','2','\\','1','.'] :=
    @PluginTokens.numbered _ _ ['2'] ['\\','1','.'] (two '\\' ['1','.'] rfl)
      (@PluginTokens.numbered _ _ ['1'] ['.'] (one '.' [] rfl)
        (PluginTokens.plain (by decide) (fun same => absurd same (by decide)) PluginTokens.nil))
  exact ⟨((replacement_iff sampleGroups 0 _).1 first).mpr rfl,((replacement_iff sampleGroups 0 _).2 second).1.mpr rfl⟩

/-- `\\` is one backslash to Python, and `$\` to `re_sub`. -/
theorem doubled_backslash_dollar :
    ¬ ∀ (groups : Groups) (text : List Char),
      pythonTemplate groups text = some (rustExpand groups (pythonReplacement text)) ∧
      pythonTemplate groups text = some (rustExpand groups (translatePythonReplacement text)) := by
  intro all
  have template : pythonTemplate sampleGroups ['\\','\\'] = some ['\\'] := by decide
  have expanded : rustExpand sampleGroups (pythonReplacement ['\\','\\']) = ['$','\\'] := by decide
  have same := (all sampleGroups ['\\','\\']).1
  rw [template,expanded] at same
  cases same

end Results

end Qdrust.Expression.Replacement
