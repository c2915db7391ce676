import Qdrust.Library.Text

/-! Masking of credentials in every text that is persisted. The source scans
bytes for ASCII delimiters, which no byte of a longer character equals, so the
scan over characters cuts at the same places. -/
namespace Qdrust.Redact
open Library

def secretWords : List String :=
  ["token","key","sign","signature","sig","secret","password","passwd","pwd","session","sessionid",
    "cookie","auth","authorization","credential","ticket","captcha","code"]

def mask : List Char := ['*','*','*']

def asciiWhitespace (c : Char) : Bool :=
  c == ' ' || c == '\t' || c == '\n' || c.toNat == 12 || c == '\r'

/-- Characters that end a URL inside a sentence or a log line. -/
def endsUrl (c : Char) : Bool :=
  asciiWhitespace c || ['"','\'','<','>',Char.ofNat 96,'\\','|',',',';'].contains c

def isSecretName (name : List Char) : Bool :=
  let normalised := (name.filter Char.isAlphanum).map Char.toLower
  !normalised.isEmpty && secretWords.any fun word => word.toList.isSuffixOf normalised

/-- One `name=value` pair of a query; a pair without `=` is kept. -/
def redactPair (pair : List Char) : List Char :=
  let name := pair.takeWhile (· != '=')
  if pair.contains '=' && isSecretName name then name ++ '=' :: mask else pair

def redactQuery (query : List Char) : List Char :=
  if query.isEmpty then [] else
    '?' :: List.intercalate ['&'] ((query.splitOn '&').map redactPair)

/-- The user information of an authority, up to its last `@`. -/
def redactAuthority (authority : List Char) : List Char :=
  if authority.contains '@' then
    mask ++ '@' :: (authority.reverse.takeWhile (· != '@')).reverse
  else authority

/-- Everything after `scheme://`. -/
def redactUrlBody (body : List Char) : List Char :=
  let authority := body.takeWhile fun c => !(c == '/' || c == '?' || c == '#')
  let rest := body.drop authority.length
  let path := rest.takeWhile (· != '#')
  let fragment := rest.drop path.length
  let front := path.takeWhile (· != '?')
  let query := path.drop front.length
  redactAuthority authority ++ front ++ redactQuery (query.dropWhile (· == '?')) ++ fragment

/-- The scan for `://`. `body` holds the characters of the URL body read so far,
in reverse, and is `none` outside a URL. -/
def redactUrls : Option (List Char) → List Char → List Char
  | none, [] => []
  | none, ':' :: '/' :: '/' :: rest => ':' :: '/' :: '/' :: redactUrls (some []) rest
  | none, c :: rest => c :: redactUrls none rest
  | some body, [] => redactUrlBody body.reverse
  | some body, c :: rest =>
    if endsUrl c then redactUrlBody body.reverse ++ c :: redactUrls none rest
    else redactUrls (some (c :: body)) rest

/-- Characters that end the token after `Bearer `. -/
def endsToken (c : Char) : Bool :=
  Text.whiteSpace c || ['"','\'',',',';',')',Char.ofNat 125].contains c

def maskToken (token : List Char) : List Char :=
  if token.isEmpty || token == mask then token else mask

/-- The scan for `Bearer `, with the token read so far in reverse. -/
def redactBearer : Option (List Char) → List Char → List Char
  | none, [] => []
  | none, 'B' :: 'e' :: 'a' :: 'r' :: 'e' :: 'r' :: ' ' :: rest =>
    "Bearer ".toList ++ redactBearer (some []) rest
  | none, c :: rest => c :: redactBearer none rest
  | some token, [] => maskToken token.reverse
  | some token, c :: rest =>
    if endsToken c then maskToken token.reverse ++ c :: redactBearer none rest
    else redactBearer (some (c :: token)) rest

def redact (text : String) : String :=
  String.ofList (redactBearer none (redactUrls none text.toList))

example : redact "GET https://u:p@a.b/x?token=1&q=2#f" = "GET https://***@a.b/x?token=***&q=2#f" := by
  rfl

section Scan

/-- What a URL body is, and what follows it. -/
theorem redactUrls_body (body text : List Char) :
    redactUrls (some body) text =
      redactUrlBody (body.reverse ++ text.takeWhile fun c => !endsUrl c) ++ redactUrls none (text.dropWhile fun c => !endsUrl c) := by
  induction text generalizing body with
  | nil => rw [redactUrls,List.takeWhile_nil,List.dropWhile_nil,List.append_nil,redactUrls,List.append_nil]
  | cons c text ih =>
    rw [redactUrls]
    cases ends : endsUrl c with
    | true =>
      have colon : c ≠ ':' := by
        rintro rfl
        exact absurd ends (by decide)
      rw [if_pos rfl,List.takeWhile_cons_of_neg (by simp [ends]),List.dropWhile_cons_of_neg (by simp [ends]),List.append_nil]
      rw [redactUrls.eq_3]
      exact fun rest first => absurd first colon
    | false =>
      rw [if_neg Bool.false_ne_true,ih,List.takeWhile_cons_of_pos (by simp [ends]),List.dropWhile_cons_of_pos (by simp [ends]),
        List.reverse_cons,List.append_assoc,List.singleton_append]

theorem redactUrls_scheme (text : List Char) :
    redactUrls none (':' :: '/' :: '/' :: text) = ':' :: '/' :: '/' :: (redactUrlBody (text.takeWhile fun c => !endsUrl c) ++
      redactUrls none (text.dropWhile fun c => !endsUrl c)) := by
  rw [redactUrls,redactUrls_body]
  rfl

theorem redactUrls_plain {c : Char} {text : List Char} (other : ¬ [':','/','/'] <+: c :: text) :
    redactUrls none (c :: text) = c :: redactUrls none text := by
  rw [redactUrls.eq_3]
  rintro rest rfl rfl
  exact other ⟨rest,rfl⟩

def marker : List Char := ['B','e','a','r','e','r',' ']

theorem redactBearer_marker (text : List Char) : redactBearer none (marker ++ text) = marker ++ redactBearer (some []) text := rfl

theorem other_letter {c : Char} (text : List Char) (letter : c ≠ 'B') : ¬ marker <+: c :: text :=
  fun ⟨_,same⟩ => letter (List.cons.inj same).1.symm

theorem redactBearer_plain {c : Char} {text : List Char} (other : ¬ marker <+: c :: text) :
    redactBearer none (c :: text) = c :: redactBearer none text := by
  rw [redactBearer.eq_def]
  split
  · next same => cases same
  · next rest _ same => exact absurd ⟨rest,same.symm⟩ other
  · next same =>
    cases same
    rfl
  · next same _ => cases same
  · next same _ => cases same

theorem redactBearer_token (token text : List Char) :
    redactBearer (some token) text =
      maskToken (token.reverse ++ text.takeWhile fun c => !endsToken c) ++ redactBearer none (text.dropWhile fun c => !endsToken c) := by
  induction text generalizing token with
  | nil =>
    rw [List.takeWhile_nil,List.dropWhile_nil,List.append_nil]
    exact (List.append_nil _).symm
  | cons c text ih =>
    have step : redactBearer (some token) (c :: text) =
      if endsToken c then maskToken token.reverse ++ c :: redactBearer none text else redactBearer (some (c :: token)) text := rfl
    rw [step]
    cases ends : endsToken c with
    | true =>
      have letter : c ≠ 'B' := by
        rintro rfl
        exact absurd ends (by decide)
      have plain := redactBearer_plain (other_letter text letter)
      rw [if_pos rfl,List.takeWhile_cons_of_neg (by simp [ends]),List.dropWhile_cons_of_neg (by simp [ends]),List.append_nil,plain]
    | false =>
      rw [if_neg Bool.false_ne_true,ih,List.takeWhile_cons_of_pos (by simp [ends]),List.dropWhile_cons_of_pos (by simp [ends]),
        List.reverse_cons,List.append_assoc,List.singleton_append]

end Scan

end Qdrust.Redact
