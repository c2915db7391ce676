import Qdrust.Library.Slices
import Qdrust.Redact

/-! The scan of the source: over bytes, with slices of the text between them. It advances, and no slice cuts a character. -/
namespace Qdrust.Redact.Bytes
open Library Utf8 Slices

section Source

def asciiWhitespaceByte (byte : UInt8) : Bool := byte == 32 || byte == 9 || byte == 10 || byte == 12 || byte == 13

/-- `ends_url`. -/
def endsUrlByte (byte : UInt8) : Bool := asciiWhitespaceByte byte || [34,39,60,62,96,92,124,44,59].contains byte

/-- The inner loop: the first byte from `start` on that ends a URL. -/
def urlEnd (bytes : Bytes) (start : Nat) : Nat := start + ((bytes.drop start).takeWhile fun byte => !endsUrlByte byte).length

/-- The loop of `redact_urls`, and the copy behind it. A `none` is a slice that panics. -/
def redactUrls (text out : List Char) (copied index : Nat) : Option (List Char) :=
  if index + 2 < size text then
    if (encode text)[index]? = some 58 ∧ (encode text)[index + 1]? = some 47 ∧ (encode text)[index + 2]? = some 47 then
      (slice text copied (index + 3)).bind fun front =>
        (slice text (index + 3) (urlEnd (encode text) (index + 3))).bind fun body =>
          redactUrls text (out ++ front ++ redactUrlBody body) (urlEnd (encode text) (index + 3)) (urlEnd (encode text) (index + 3))
    else redactUrls text out copied (index + 1)
  else (slice text copied (size text)).map (out ++ ·)
termination_by size text - index
decreasing_by
  · unfold urlEnd
    omega
  · omega

/-- The loop of `redact_bearer`, round by round. -/
def redactBearer : Nat → List Char → List Char → Option (List Char)
  | 0,_,_ => none
  | fuel + 1,out,rest =>
    match findText marker rest with
    | none => some (out ++ rest)
    | some found =>
      (slice rest 0 (found + size marker)).bind fun front =>
        (slice rest (found + size marker) (size rest)).bind fun tail =>
          let tokenLen := (findChar endsToken tail).getD (size tail)
          (slice tail 0 tokenLen).bind fun token =>
            (slice tail tokenLen (size tail)).bind fun rest => redactBearer fuel (out ++ front ++ maskToken token) rest

/-- The text has a round for each of its characters. -/
def redact (text : List Char) : Option (List Char) :=
  (redactUrls text [] 0 0).bind fun urlSafe => redactBearer (urlSafe.length + 1) [] urlSafe

end Source

section Urls

theorem endsUrl_ascii {c : Char} (small : c.toNat < 128) : endsUrlByte (UInt8.ofNat c.toNat) = endsUrl c := by
  have all : ∀ n : Fin 128, endsUrlByte (UInt8.ofNat n.val) = endsUrl (Char.ofNat n.val) := by decide +kernel
  have same := all ⟨c.toNat,small⟩
  rwa [Char.ofNat_toNat] at same

theorem endsUrl_high {byte : UInt8} (high : 128 ≤ byte) : endsUrlByte byte = false := by
  have all : ∀ n : Fin 128, endsUrlByte (UInt8.ofNat (n.val + 128)) = false := by decide +kernel
  have low : 128 ≤ byte.toNat := UInt8.le_iff_toNat_le.mp high
  have bound := byte.toNat_lt
  have same := all ⟨byte.toNat - 128,by omega⟩
  rwa [show byte.toNat - 128 + 128 = byte.toNat from by omega,UInt8.ofNat_toNat] at same

theorem endsUrl_wide {c : Char} (large : ¬ c.toNat < 128) : endsUrl c = false := by
  have other (d : Char) (small : d.toNat < 128) : (c == d) = false := by
    refine beq_eq_false_iff_ne.mpr ?_
    rintro rfl
    exact large small
  have feed : (c.toNat == 12) = false := beq_eq_false_iff_ne.mpr (by omega)
  simp only [endsUrl,asciiWhitespace,List.contains_cons,List.contains_nil,feed,other ' ' (by decide),other '\t' (by decide),
    other '\n' (by decide),other '\r' (by decide),other '"' (by decide),other '\'' (by decide),other '<' (by decide),
    other '>' (by decide),other (Char.ofNat 96) (by decide),other '\\' (by decide),other '|' (by decide),other ',' (by decide),
    other ';' (by decide),Bool.or_false]

/-- The inner loop ends where the URL of the text does. -/
theorem takeWhile_encode (text : List Char) :
    (encode text).takeWhile (fun byte => !endsUrlByte byte) = encode (text.takeWhile fun c => !endsUrl c) := by
  induction text with
  | nil => rfl
  | cons c text ih =>
    rw [encode_cons]
    by_cases small : c.toNat < 128
    · rw [encodeChar_ascii small,List.singleton_append]
      have same := endsUrl_ascii small
      cases ends : endsUrl c with
      | true => rw [List.takeWhile_cons_of_neg (by simp [same,ends]),List.takeWhile_cons_of_neg (by simp [ends]),encode_nil]
      | false =>
        rw [List.takeWhile_cons_of_pos (by simp [same,ends]),List.takeWhile_cons_of_pos (by simp [ends]),encode_cons,
          encodeChar_ascii small,ih]
        rfl
    · have inside : ∀ byte ∈ String.utf8EncodeChar c, (!endsUrlByte byte) = true := by
        intro byte member
        rw [endsUrl_high (encodeChar_high small byte member)]
        rfl
      rw [List.takeWhile_append_of_pos inside,List.takeWhile_cons_of_pos (by rw [endsUrl_wide small]; rfl),encode_cons,ih]

theorem urlEnd_size (front rest : List Char) :
    urlEnd (encode (front ++ rest)) (size front) = size (front ++ rest.takeWhile fun c => !endsUrl c) := by
  rw [urlEnd,encode_append,size,List.drop_left,takeWhile_encode,size,encode_append,List.length_append]

theorem byte_at (front rest : List Char) (k : Nat) : (encode (front ++ rest))[size front + k]? = (encode rest)[k]? := by
  rw [size,encode_append,List.getElem?_append_right (Nat.le_add_right _ _)]
  exact congrArg _ (Nat.add_sub_cancel_left _ _)

/-- The three bytes are those of `://`. -/
theorem scheme_bytes (front rest : List Char) :
    ((encode (front ++ rest))[size front]? = some 58 ∧ (encode (front ++ rest))[size front + 1]? = some 47 ∧
      (encode (front ++ rest))[size front + 2]? = some 47) ↔ [':','/','/'] <+: rest := by
  have first := byte_at front rest 0
  rw [Nat.add_zero] at first
  rw [first,byte_at,byte_at]
  constructor
  · rintro ⟨colon,slash,second⟩
    obtain ⟨c,rest,rfl,code⟩ := first_ascii (by decide) colon
    have is : c = ':' := Char.toNat_inj.mp code
    subst is
    obtain ⟨d,rest,rfl,code⟩ := @first_ascii rest 47 (by decide) slash
    have is : d = '/' := Char.toNat_inj.mp code
    subst is
    obtain ⟨e,rest,rfl,code⟩ := @first_ascii rest 47 (by decide) second
    have is : e = '/' := Char.toNat_inj.mp code
    subst is
    exact ⟨rest,rfl⟩
  · rintro ⟨rest,rfl⟩
    exact ⟨rfl,rfl,rfl⟩

/-- A position behind which there is no `://` is passed. -/
theorem redactUrls_skip {text : List Char} {index : Nat}
    (other : ¬ ((encode text)[index]? = some 58 ∧ (encode text)[index + 1]? = some 47 ∧ (encode text)[index + 2]? = some 47))
    (out : List Char) (copied : Nat) : redactUrls text out copied index = redactUrls text out copied (index + 1) := by
  rw [redactUrls]
  by_cases inside : index + 2 < size text
  · rw [if_pos inside,if_neg other]
  · rw [if_neg inside,redactUrls,if_neg (by omega)]

/-- Every byte of a character is passed. -/
theorem redactUrls_char {front rest : List Char} {c : Char}
    (other : ¬ ((encode (front ++ c :: rest))[size front]? = some 58 ∧ (encode (front ++ c :: rest))[size front + 1]? = some 47 ∧
      (encode (front ++ c :: rest))[size front + 2]? = some 47)) (out : List Char) (copied : Nat) :
    redactUrls (front ++ c :: rest) out copied (size front) = redactUrls (front ++ c :: rest) out copied (size (front ++ [c])) := by
  have passed (k : Nat) (bound : k ≤ c.utf8Size) :
      redactUrls (front ++ c :: rest) out copied (size front) = redactUrls (front ++ c :: rest) out copied (size front + k) := by
    induction k with
    | zero => rfl
    | succ k ih =>
      rw [ih (by omega),redactUrls_skip ?_]
      · rfl
      · rintro ⟨colon,slash⟩
        cases k with
        | zero => exact other ⟨colon,slash⟩
        | succ k =>
          have inside : k + 1 < (String.utf8EncodeChar c).length := by
            rw [String.length_utf8EncodeChar]
            omega
          rw [byte_at,encode_cons,List.getElem?_append_left inside] at colon
          exact absurd (later_high (Nat.succ_pos k) colon) (by decide)
  have wide : size [c] = c.utf8Size := by rw [size_cons,size,encode_nil,List.length_nil,Nat.add_zero]
  rw [passed c.utf8Size (Nat.le_refl _),size_append,wide]

/-- From every place between two characters the loop comes to an end, and its text is that of the scan over characters. -/
theorem redactUrls_from (front seen rest out : List Char) :
    redactUrls (front ++ seen ++ rest) out (size front) (size (front ++ seen)) =
      some (out ++ seen ++ Redact.redactUrls none rest) := by
  induction length : rest.length using Nat.strongRecOn generalizing front seen rest out with
  | ind _ ih =>
  subst length
  by_cases scheme : [':','/','/'] <+: rest
  · obtain ⟨tail,rfl⟩ := scheme
    have bytes := (scheme_bytes (front ++ seen) ([':','/','/'] ++ tail)).mpr ⟨tail,rfl⟩
    have start : size (front ++ seen) + 3 = size (front ++ (seen ++ [':','/','/'])) := by
      rw [← List.append_assoc,size_append (front ++ seen)]
      rfl
    have before : front ++ seen ++ ([':','/','/'] ++ tail) = front ++ (seen ++ [':','/','/']) ++ tail := by simp
    have inside : size (front ++ seen) + 2 < size (front ++ seen ++ ([':','/','/'] ++ tail)) := by
      rw [before,size_append _ tail,← start]
      omega
    have cut : front ++ (seen ++ [':','/','/']) ++ tail = front ++ (seen ++ [':','/','/']) ++
        tail.takeWhile (fun c => !endsUrl c) ++ tail.dropWhile (fun c => !endsUrl c) := by
      rw [List.append_assoc _ (tail.takeWhile _),List.takeWhile_append_dropWhile]
    have body : slice (front ++ (seen ++ [':','/','/']) ++ tail) (size (front ++ (seen ++ [':','/','/'])))
        (size (front ++ (seen ++ [':','/','/']) ++ tail.takeWhile fun c => !endsUrl c)) =
        some (tail.takeWhile fun c => !endsUrl c) := by
      rw [cut]
      exact slice_size _ _ _
    have shorter : (tail.dropWhile fun c => !endsUrl c).length < ([':','/','/'] ++ tail).length := by
      have less := (@List.dropWhile_sublist _ tail fun c => !endsUrl c).length_le
      rw [List.length_append]
      exact Nat.lt_of_le_of_lt less (Nat.lt_add_of_pos_left (by decide))
    have rest := ih _ shorter (front ++ (seen ++ [':','/','/']) ++ tail.takeWhile fun c => !endsUrl c) []
      (tail.dropWhile fun c => !endsUrl c)
      (out ++ (seen ++ [':','/','/']) ++ redactUrlBody (tail.takeWhile fun c => !endsUrl c)) rfl
    rw [List.append_nil,List.append_nil,← cut] at rest
    rw [redactUrls,if_pos inside,if_pos bytes,start,before,urlEnd_size,slice_size,Option.bind_some,body,Option.bind_some,rest]
    rw [List.cons_append,List.cons_append,List.singleton_append,redactUrls_scheme]
    simp
  · cases rest with
    | nil =>
      have outside : ¬ size (front ++ seen) + 2 < size (front ++ seen ++ []) := by
        rw [List.append_nil]
        omega
      rw [redactUrls,if_neg outside,List.append_nil,slice_end,Option.map_some,Redact.redactUrls,List.append_nil]
    | cons c rest =>
      have skipped := redactUrls_char (fun bytes => scheme ((scheme_bytes (front ++ seen) (c :: rest)).mp bytes)) out (size front)
      have moved : front ++ seen ++ c :: rest = front ++ (seen ++ [c]) ++ rest := by simp
      rw [skipped,moved,List.append_assoc front seen [c],ih rest.length (Nat.lt_succ_self _) front (seen ++ [c]) rest out rfl,
        redactUrls_plain scheme]
      simp

end Urls

section Bearer

theorem findText_none {rest : List Char} (absent : findText marker rest = none) : Redact.redactBearer none rest = rest := by
  induction rest with
  | nil => rfl
  | cons c rest ih =>
    rw [findText] at absent
    by_cases begins : marker <+: c :: rest
    · rw [if_pos begins] at absent
      cases absent
    · rw [if_neg begins] at absent
      rw [redactBearer_plain begins,ih (Option.map_eq_none_iff.mp absent)]

/-- The scan copies what is in front of the first marker. -/
theorem findText_some {rest : List Char} {found : Nat} (is : findText marker rest = some found) :
    ∃ front back, rest = front ++ (marker ++ back) ∧ found = size front ∧
      Redact.redactBearer none rest = front ++ (marker ++ Redact.redactBearer (some []) back) := by
  induction rest generalizing found with
  | nil =>
    have nothing : findText marker [] = none := if_neg (List.cons_ne_nil _ _)
    rw [nothing] at is
    cases is
  | cons c rest ih =>
    rw [findText] at is
    by_cases begins : marker <+: c :: rest
    · rw [if_pos begins] at is
      cases is
      obtain ⟨back,same⟩ := begins
      rw [← same,redactBearer_marker]
      exact ⟨[],back,rfl,rfl,rfl⟩
    · rw [if_neg begins] at is
      obtain ⟨after,later,rfl⟩ := Option.map_eq_some_iff.mp is
      obtain ⟨front,back,same,rfl,scanned⟩ := ih later
      rw [redactBearer_plain begins,scanned,same]
      exact ⟨c :: front,back,rfl,by rw [size_cons,Nat.add_comm],rfl⟩

/-- With a round for each character the loop comes to an end, and its text is that of the scan over characters. -/
theorem redactBearer_from (fuel : Nat) (out rest : List Char) (enough : rest.length < fuel) :
    redactBearer fuel out rest = some (out ++ Redact.redactBearer none rest) := by
  induction fuel generalizing out rest with
  | zero => omega
  | succ fuel ih =>
    rw [redactBearer]
    cases found : findText marker rest with
    | none => rw [findText_none found]
    | some found' =>
      obtain ⟨front,back,rfl,rfl,scanned⟩ := findText_some found
      have less := (@List.dropWhile_sublist _ back fun c => !endsToken c).length_le
      have shorter : (back.dropWhile fun c => !endsToken c).length < fuel := by
        have wide : marker.length = 7 := rfl
        rw [List.length_append,List.length_append,wide] at enough
        omega
      have tail : slice (front ++ (marker ++ back)) (size front + size marker) (size (front ++ (marker ++ back))) = some back := by
        rw [← List.append_assoc,← size_append]
        exact slice_end _ _
      have taken : slice (front ++ (marker ++ back)) 0 (size front + size marker) = some (front ++ marker) := by
        rw [← List.append_assoc,← size_append]
        exact slice_start _ _
      have masked : slice back 0 (size (back.takeWhile fun c => !endsToken c)) = some (back.takeWhile fun c => !endsToken c) := by
        have cut := slice_start (back.takeWhile fun c => !endsToken c) (back.dropWhile fun c => !endsToken c)
        rwa [List.takeWhile_append_dropWhile] at cut
      have after : slice back (size (back.takeWhile fun c => !endsToken c)) (size back) =
          some (back.dropWhile fun c => !endsToken c) := by
        have cut := slice_end (back.takeWhile fun c => !endsToken c) (back.dropWhile fun c => !endsToken c)
        rwa [List.takeWhile_append_dropWhile] at cut
      dsimp only
      rw [taken,tail]
      dsimp only [Option.bind_some]
      rw [findChar_takeWhile,masked,after,Option.bind_some,Option.bind_some,ih _ _ shorter,scanned,redactBearer_token]
      simp

end Bearer

/-- The redaction of every text comes to an end, and none of its slices cuts a character. -/
theorem redact_slices (text : List Char) : redact text = some (Redact.redactBearer none (Redact.redactUrls none text)) := by
  have urls : redactUrls text [] 0 0 = some (Redact.redactUrls none text) := redactUrls_from [] [] text []
  rw [redact,urls,Option.bind_some,redactBearer_from _ _ _ (Nat.lt_succ_self _),List.nil_append]

end Qdrust.Redact.Bytes
