import Qdrust.Library.Chunks
import Qdrust.Library.Digits
import Qdrust.Library.Json
import Qdrust.Library.Text
import Qdrust.Library.Utf8

/-! Keys as PEM texts. A key may arrive without its newlines and with spaces for its plus signs. -/
namespace Qdrust.Codec.Pem
open Library Chunks

def dashes : List Char := "-----".toList
def beginning : List Char := "-----BEGIN ".toList
def ending : List Char := "-----END ".toList

/-- A marker at the start of a text, and what follows it. The label is all that comes before the next dash. -/
def markerHere (opening text : List Char) : Option (List Char × List Char) :=
  match opening.isPrefixOf? text with
  | none => none
  | some rest =>
    let label := rest.takeWhile (· != '-')
    if label = [] then none
    else (dashes.isPrefixOf? (rest.dropWhile (· != '-'))).map fun back => (opening ++ (label ++ dashes),back)

/-- The first match of `-----… [^-]+-----`, with what stands before and after it. -/
def findMarker (opening : List Char) : List Char → Option (List Char × List Char × List Char)
  | [] => none
  | c :: text =>
    match markerHere opening (c :: text) with
    | some found => some ([],found)
    | none => (findMarker opening text).map fun found => (c :: found.1,found.2)

/-- `str::from_utf8`. -/
def fromUtf8 (bytes : List UInt8) : Option (List Char) :=
  if Utf8.encode (Utf8.lossy bytes) = bytes then some (Utf8.lossy bytes) else none

/-- The body without its newlines, where a space is a plus sign. -/
def restore (source : List Char) : List Char :=
  (source.map fun c => if c = ' ' then '+' else c).filter fun c => !Text.whiteSpace c

def bodyLines (body : List Char) : Option (List (List Char)) := (chunks 64 (Utf8.encode body)).mapM fromUtf8

/-- The text of a key: its lines, each with a newline. -/
def laid (header : List Char) (lines : List (List Char)) (footer : List Char) : List Char :=
  header ++ ('\n' :: lines.flatMap (· ++ ['\n'])) ++ footer ++ ['\n']

def assemble (header body footer : List Char) : Except String (List Char) :=
  if body = [] then .error "证书格式错误: PEM body is missing"
  else
    match bodyLines body with
    | some lines => .ok (laid header lines footer)
    | none => .error "key body is not valid UTF-8"

def normalizeRsaPem (key : List Char) : Except String (List Char) :=
  match findMarker beginning (Text.trimList Text.whiteSpace key) with
  | none => .error "证书格式错误: PEM header/footer is missing"
  | some (front,header,back) =>
    match findMarker ending (front ++ back) with
    | none => .error "证书格式错误: PEM header/footer is missing"
    | some (front,footer,back) => assemble header (restore (front ++ back)) footer

section Marker

variable {opening : List Char}

/-- A marker that the search can return. -/
def Labelled (opening marker : List Char) : Prop :=
  ∃ label, label ≠ [] ∧ (∀ c ∈ label, c ≠ '-') ∧ marker = opening ++ (label ++ dashes)

theorem markerHere_labelled {marker : List Char} (labelled : Labelled opening marker) (back : List Char) :
    markerHere opening (marker ++ back) = some (marker,back) := by
  obtain ⟨label,some,dashless,rfl⟩ := labelled
  have all : ∀ c ∈ label, (c != '-') = true := fun c inside => bne_iff_ne.mpr (dashless c inside)
  have starts : opening.isPrefixOf? (opening ++ (label ++ dashes) ++ back) = .some (label ++ (dashes ++ back)) := by
    rw [List.isPrefixOf?_eq_some_iff_append_eq,List.append_assoc,List.append_assoc]
  have front : (label ++ (dashes ++ back)).takeWhile (· != '-') = label := by
    rw [List.takeWhile_append_of_pos all]
    exact List.append_nil label
  have rest : (label ++ (dashes ++ back)).dropWhile (· != '-') = dashes ++ back := List.dropWhile_append_of_pos all
  have closes : dashes.isPrefixOf? (dashes ++ back) = .some back := List.isPrefixOf?_eq_some_iff_append_eq.mpr rfl
  rw [markerHere,starts]
  simp only [front,rest,closes,if_neg some,Option.map_some]

theorem markerHere_some {text marker back : List Char} (found : markerHere opening text = some (marker,back)) :
    Labelled opening marker := by
  rw [markerHere] at found
  split at found
  · cases found
  · next rest _ =>
    by_cases empty : rest.takeWhile (· != '-') = []
    · rw [if_pos empty] at found
      cases found
    · rw [if_neg empty] at found
      obtain ⟨_,_,same⟩ := Option.map_eq_some_iff.mp found
      cases same
      refine ⟨_,empty,fun c inside => ?_,rfl⟩
      have other := @List.mem_takeWhile_imp _ (· != '-') _ _ inside
      exact bne_iff_ne.mp other

theorem findMarker_some {text front marker back : List Char} (found : findMarker opening text = some (front,marker,back)) :
    Labelled opening marker := by
  induction text generalizing front with
  | nil => cases found
  | cons c text ih =>
    rw [findMarker] at found
    split at found
    · next here =>
      cases found
      exact markerHere_some here
    · obtain ⟨⟨front',marker',back'⟩,later,same⟩ := Option.map_eq_some_iff.mp found
      cases same
      exact ih later

theorem markerHere_none {text : List Char} (other : ¬ opening <+: text) : markerHere opening text = none := by
  rw [markerHere]
  split
  · rfl
  · next rest starts => exact absurd ⟨rest,List.isPrefixOf?_eq_some_iff_append_eq.mp starts⟩ other

/-- A marker is found when none begins before it. -/
theorem findMarker_first {front marker back : List Char} (labelled : Labelled opening marker)
    (first : ∀ part, part ≠ [] → part <:+ front → ¬ opening <+: part ++ (marker ++ back)) (some : marker ≠ []) :
    findMarker opening (front ++ (marker ++ back)) = .some (front,marker,back) := by
  induction front with
  | nil =>
    have here := markerHere_labelled labelled back
    obtain ⟨c,rest,same⟩ := List.exists_cons_of_ne_nil some
    rw [same] at here ⊢
    rw [List.cons_append] at here
    rw [List.nil_append,List.cons_append,findMarker,here]
  | cons c front ih =>
    have none := markerHere_none (first (c :: front) (List.cons_ne_nil _ _) (List.suffix_refl _))
    have later := ih fun part full behind => first part full (behind.trans (List.suffix_cons c front))
    rw [List.cons_append] at none ⊢
    rw [findMarker,none,later]
    rfl

end Marker

/-- A text in which no footer begins: it has no dash, or no space. -/
def Clear (text : List Char) : Prop := (∀ c ∈ text, c ≠ '-') ∨ ∀ c ∈ text, c ≠ ' '

/-- The space of the footer is its ninth character. -/
theorem ending_space {part rest : List Char} (spaceless : ∀ c ∈ part, c ≠ ' ') (starts : ending <+: part ++ (ending ++ rest)) : part = [] := by
  have space : ∀ c ∈ part, (c != ' ') = true := fun c inside => bne_iff_ne.mpr (spaceless c inside)
  obtain ⟨back,whole⟩ := starts
  have spans := congrArg (fun text => (text.takeWhile (· != ' ')).length) whole
  simp only [List.takeWhile_append_of_pos space,List.length_append] at spans
  have here : ∀ text : List Char, ((ending ++ text).takeWhile (· != ' ')).length = 8 := fun _ => rfl
  rw [here,here] at spans
  exact List.eq_nil_of_length_eq_zero (by omega)

theorem footer_first {raw footer back : List Char} (clear : Clear raw) (labelled : Labelled ending footer) :
    findMarker ending (raw ++ (footer ++ back)) = some (raw,footer,back) := by
  have shape := labelled
  obtain ⟨label,_,_,rfl⟩ := shape
  refine findMarker_first labelled (fun part full behind starts => ?_) (List.append_ne_nil_of_left_ne_nil (by decide) _)
  obtain ⟨c,rest,rfl⟩ := List.exists_cons_of_ne_nil full
  rcases clear with dashless | spaceless
  · have inside : c ∈ raw := behind.subset List.mem_cons_self
    obtain ⟨_,whole⟩ := starts
    exact dashless c inside (List.cons.inj whole).1.symm
  · rw [List.append_assoc] at starts
    exact full (ending_space (fun c inside => spaceless c (behind.subset inside)) starts)

theorem trim_surrounded {set : Char → Bool} {before text after : List Char} (front : ∀ c ∈ before, set c = true)
    (back : ∀ c ∈ after, set c = true) (some : text ≠ []) (first : ∀ c ∈ text.head?, set c = false)
    (last : ∀ c ∈ text.getLast?, set c = false) : Text.trimList set (before ++ (text ++ after)) = text := by
  obtain ⟨c,rest,same⟩ := List.exists_cons_of_ne_nil some
  have start : set c = false := first c (by rw [same]; rfl)
  have dropped : (before ++ (text ++ after)).dropWhile set = text ++ after := by
    rw [List.dropWhile_append_of_pos front,same,List.cons_append,List.dropWhile_cons_of_neg (by rw [start]; exact Bool.false_ne_true)]
  rw [Text.trimList,dropped,List.rdropWhile,List.reverse_append,
    List.dropWhile_append_of_pos fun c inside => back c (List.mem_reverse.mp inside)]
  obtain ⟨c,rest,same⟩ := List.exists_cons_of_ne_nil (mt List.reverse_eq_nil_iff.mp some)
  have stop : set c = false := by
    refine last c ?_
    rw [← List.head?_reverse,same]
    rfl
  rw [same,List.dropWhile_cons_of_neg (by rw [stop]; exact Bool.false_ne_true),← same,List.reverse_reverse]

/-- What becomes of a key with its markers in place. -/
theorem normalize_marked {before header raw footer after : List Char} (front : ∀ c ∈ before, Text.whiteSpace c = true)
    (back : ∀ c ∈ after, Text.whiteSpace c = true) (headed : Labelled beginning header) (footed : Labelled ending footer)
    (clear : Clear raw) : normalizeRsaPem (before ++ (header ++ (raw ++ footer) ++ after)) = assemble header (restore raw) footer := by
  have dash : Text.whiteSpace '-' = false := by decide
  have shapes := And.intro headed footed
  obtain ⟨⟨label,_,_,header'⟩,⟨label',_,_,footer'⟩⟩ := shapes
  have some : header ≠ [] := by
    rw [header']
    exact List.append_ne_nil_of_left_ne_nil (by decide) _
  have trimmed : Text.trimList Text.whiteSpace (before ++ (header ++ (raw ++ footer) ++ after)) = header ++ (raw ++ footer) := by
    refine trim_surrounded front back (List.append_ne_nil_of_left_ne_nil some _) ?_ ?_
    · intro c first
      rw [header'] at first
      cases first
      exact dash
    · intro c last
      have whole : header ++ (raw ++ footer) = (header ++ (raw ++ (ending ++ label'))) ++ "----".toList ++ ['-'] := by
        rw [footer',dashes]
        simp only [List.append_assoc]
        rfl
      rw [whole,List.getLast?_concat] at last
      cases last
      exact dash
  have first : findMarker beginning (header ++ (raw ++ footer)) = .some ([],header,raw ++ footer) :=
    findMarker_first headed (fun part full behind => absurd (List.suffix_nil.mp behind) full) some
  have second := @footer_first raw footer [] clear footed
  rw [List.append_nil] at second
  rw [normalizeRsaPem,trimmed,first]
  simp only [List.nil_append,second,List.append_nil]

section Body

theorem restore_append (front back : List Char) : restore (front ++ back) = restore front ++ restore back := by
  rw [restore,List.map_append,List.filter_append]
  rfl

theorem restore_self {text : List Char} (solid : ∀ c ∈ text, Text.whiteSpace c = false) : restore text = text := by
  have same : text.map (fun c => if c = ' ' then '+' else c) = text.map id := by
    refine List.map_congr_left fun c inside => if_neg ?_
    rintro rfl
    exact absurd (solid ' ' inside) (by decide)
  rw [restore,same,List.map_id]
  exact List.filter_eq_self.mpr fun c inside => by rw [solid c inside]; rfl

theorem restore_solid (text : List Char) : ∀ c ∈ restore text, Text.whiteSpace c = false := by
  intro c inside
  have kept := (List.mem_filter.mp inside).2
  rw [Bool.not_eq_true'] at kept
  exact kept

/-- The newlines between the lines are dropped. -/
theorem restore_lines {lines : List (List Char)} (solid : ∀ c ∈ lines.flatten, Text.whiteSpace c = false) :
    restore ('\n' :: lines.flatMap (· ++ ['\n'])) = lines.flatten := by
  have dropped (text : List Char) : restore ('\n' :: text) = restore text := rfl
  rw [dropped]
  induction lines with
  | nil => rfl
  | cons line lines ih =>
    rw [List.flatten_cons] at solid ⊢
    have front := restore_self fun c inside => solid c (List.mem_append_left _ inside)
    have back := ih fun c inside => solid c (List.mem_append_right _ inside)
    rw [List.flatMap_cons,restore_append,restore_append,front,back]
    change line ++ [] ++ lines.flatten = line ++ lines.flatten
    rw [List.append_nil]

theorem fromUtf8_some {bytes : List UInt8} {text : List Char} (valid : fromUtf8 bytes = some text) : Utf8.encode text = bytes := by
  obtain ⟨same,value⟩ := Option.ite_none_right_eq_some.mp valid
  cases value
  exact same

theorem fromUtf8_encode (text : List Char) : fromUtf8 (Utf8.encode text) = some text := by
  rw [fromUtf8,Utf8.lossy_encode,if_pos rfl]

theorem encode_flatten (lines : List (List Char)) : Utf8.encode lines.flatten = (lines.map Utf8.encode).flatten := by
  induction lines with
  | nil => rfl
  | cons line lines ih => rw [List.flatten_cons,Utf8.encode_append,ih,List.map_cons,List.flatten_cons]

/-- The lines make up the body. -/
theorem bodyLines_flatten {body : List Char} {lines : List (List Char)} (cut : bodyLines body = some lines) : lines.flatten = body := by
  have parts : lines.map Utf8.encode = chunks 64 (Utf8.encode body) := by
    have each := Json.mapM_eq_some.mp cut
    generalize chunks 64 (Utf8.encode body) = parts at each
    clear cut
    induction each with
    | nil => rfl
    | cons valid _ ih => rw [List.map_cons,fromUtf8_some valid,ih]
  have bytes : Utf8.encode lines.flatten = Utf8.encode body := by
    rw [encode_flatten,parts,flatten_chunks (by decide)]
  rw [← Utf8.lossy_encode lines.flatten,bytes,Utf8.lossy_encode]

/-- An ASCII body is cut every 64 characters. -/
theorem bodyLines_ascii {body : List Char} (ascii : ∀ c ∈ body, c.toNat < 128) : bodyLines body = some (chunks 64 body) := by
  have bytes {text : List Char} (small : ∀ c ∈ text, c.toNat < 128) :
      Utf8.encode text = text.map fun c => UInt8.ofNat c.toNat := by
    induction text with
    | nil => rfl
    | cons c text ih =>
      rw [List.forall_mem_cons] at small
      rw [Utf8.encode_cons,Utf8.encodeChar_ascii small.1,ih small.2]
      rfl
  have parts : chunks 64 (Utf8.encode body) = (chunks 64 body).map Utf8.encode := by
    rw [bytes ascii,chunks_map (by decide)]
    refine List.map_congr_left fun part inside => (bytes fun c there => ascii c ?_).symm
    rw [← @flatten_chunks _ 64 (by decide) body]
    exact List.mem_flatten_of_mem inside there
  rw [bodyLines,parts]
  refine Json.mapM_eq_some.mpr ?_
  rw [List.forall₂_map_left_iff]
  exact List.forall₂_same.mpr fun part _ => fromUtf8_encode part

theorem normalize_ok {key output : List Char} (accepted : normalizeRsaPem key = .ok output) :
    ∃ header body lines footer, Labelled beginning header ∧ Labelled ending footer ∧ (∀ c ∈ body, Text.whiteSpace c = false) ∧
      bodyLines body = some lines ∧ output = laid header lines footer ∧ assemble header body footer = .ok output := by
  rw [normalizeRsaPem] at accepted
  split at accepted
  · cases accepted
  · next front header back headed =>
    split at accepted
    · cases accepted
    · next front' footer back' footed =>
      have solid := restore_solid (front' ++ back')
      have whole := accepted
      rw [assemble] at accepted
      split at accepted
      · cases accepted
      · split at accepted
        · next lines cut =>
          cases accepted
          exact ⟨header,_,lines,footer,findMarker_some headed,findMarker_some footed,solid,cut,rfl,whole⟩
        · cases accepted

end Body

/-- What a text may look like behind the transport: newlines are lost, and in the body a plus sign becomes a space. -/
inductive Damaged (body : Bool) : List Char → List Char → Prop
  | nil : Damaged body [] []
  | kept (c : Char) {text damaged : List Char} : Damaged body text damaged → Damaged body (c :: text) (c :: damaged)
  | newline {text damaged : List Char} : Damaged body text damaged → Damaged body ('\n' :: text) damaged
  | plus (inside : body = true) {text damaged : List Char} :
      Damaged body text damaged → Damaged body ('+' :: text) (' ' :: damaged)

theorem Damaged.dashless {body : Bool} {text damaged : List Char} (damage : Damaged body text damaged)
    (dashless : ∀ c ∈ text, c ≠ '-') : ∀ c ∈ damaged, c ≠ '-' := by
  induction damage with
  | nil => exact dashless
  | kept c damage ih =>
    rw [List.forall_mem_cons] at dashless ⊢
    exact ⟨dashless.1,ih dashless.2⟩
  | newline damage ih => exact ih (List.forall_mem_cons.mp dashless).2
  | plus inside damage ih =>
    rw [List.forall_mem_cons] at dashless ⊢
    exact ⟨by decide,ih dashless.2⟩

/-- Restoring undoes the damage of a body. -/
theorem Damaged.restore {body : Bool} {text damaged : List Char} (damage : Damaged body text damaged) :
    Pem.restore damaged = Pem.restore text := by
  induction damage with
  | nil => rfl
  | kept c damage ih =>
    have both := congrArg (Pem.restore [c] ++ ·) ih
    rw [← restore_append,← restore_append] at both
    exact both
  | newline damage ih => exact ih
  | plus inside damage ih => exact congrArg ('+' :: ·) ih

/-- A line keeps its newline or loses it. -/
theorem Damaged.line {line damaged : List Char} (single : ∀ c ∈ line, c ≠ '\n') (damage : Damaged false (line ++ ['\n']) damaged) :
    ∃ gap, (∀ c ∈ gap, c = '\n') ∧ damaged = line ++ gap := by
  induction line generalizing damaged with
  | nil =>
    rcases damage with _ | ⟨_,⟨⟩⟩ | ⟨⟨⟩⟩
    · exact ⟨['\n'],List.forall_mem_singleton.mpr rfl,rfl⟩
    · exact ⟨[],nofun,rfl⟩
  | cons c line ih =>
    rw [List.forall_mem_cons] at single
    cases damage with
    | kept _ damage =>
      obtain ⟨gap,newlines,rfl⟩ := ih single.2 damage
      exact ⟨gap,newlines,rfl⟩
    | newline damage => exact absurd rfl single.1
    | plus inside damage => cases inside

def base64Character (c : Char) : Bool := c.isAlphanum || c == '+' || c == '/' || c == '='

/-- A marker on a line of its own. -/
structure MarkerLine (opening : List Char) where
  marker : List Char
  labelled : Labelled opening marker
  single : ∀ c ∈ marker, c ≠ '\n'

/-- A key: its markers and a base64 body. -/
structure Key where
  header : MarkerLine beginning
  body : List Char
  footer : MarkerLine ending
  some : body ≠ []
  base64 : ∀ c ∈ body, base64Character c = true

/-- The canonical text, with the body wrapped at 64 columns. -/
def Key.text (key : Key) : List Char := laid key.header.marker (chunks 64 key.body) key.footer.marker

/-- A text that the canonical one may have become. -/
def Transported (key : Key) (text : List Char) : Prop :=
  ∃ before head body foot after, text = before ++ (head ++ (body ++ foot) ++ after) ∧
    (∀ c ∈ before, Text.whiteSpace c = true) ∧ (∀ c ∈ after, Text.whiteSpace c = true) ∧
    Damaged false (key.header.marker ++ ['\n']) head ∧
    Damaged true ((chunks 64 key.body).flatMap (· ++ ['\n'])) body ∧
    Damaged false (key.footer.marker ++ ['\n']) foot

theorem base64_code {c : Char} (base64 : base64Character c = true) :
    43 ≤ c.toNat ∧ c.toNat ≤ 122 ∧ c.toNat ≠ 45 := by
  simp only [base64Character,Bool.or_eq_true,beq_iff_eq] at base64
  rcases base64 with ((letter | rfl) | rfl) | rfl
  · rcases Bool.or_eq_true_iff.mp letter with letter | digit
    · rcases Bool.or_eq_true_iff.mp letter with upper | lower
      · obtain ⟨low,high⟩ : c.val ≥ 'A'.val ∧ c.val ≤ 'Z'.val := of_decide_eq_true upper
        have least : 65 ≤ c.toNat := low
        have most : c.toNat ≤ 90 := high
        omega
      · have both : (decide (c.val ≥ 'a'.val) && decide (c.val ≤ 'z'.val)) = true := lower
        obtain ⟨low,high⟩ := Bool.and_eq_true_iff.mp both
        have least : 97 ≤ c.toNat := of_decide_eq_true low
        have most : c.toNat ≤ 122 := of_decide_eq_true high
        omega
    · obtain ⟨low,high⟩ := Digits.isDigit_iff.mp digit
      omega
  · decide
  · decide
  · decide

theorem base64_plain {c : Char} (base64 : base64Character c = true) :
    c.toNat < 128 ∧ Text.whiteSpace c = false ∧ c ≠ '-' := by
  obtain ⟨low,high,other⟩ := base64_code base64
  refine ⟨by omega,?_,?_⟩
  · simp only [Text.whiteSpace,Bool.or_eq_false_iff,Bool.and_eq_false_iff,decide_eq_false_iff_not,beq_eq_false_iff_ne]
    omega
  · rintro rfl
    exact other rfl

theorem Damaged.refl (body : Bool) (text : List Char) : Damaged body text text := by
  induction text with
  | nil => exact .nil
  | cons c text ih => exact .kept c ih

theorem lost_end (line : List Char) : Damaged false (line ++ ['\n']) line := by
  induction line with
  | nil => exact .newline .nil
  | cons c line ih => exact .kept c ih

/-- Every key comes back from its transport, and a text that is accepted is canonical from then on. -/
theorem normalize_canonical :
    (∀ (key : Key) (text : List Char), Transported key text → normalizeRsaPem text = .ok key.text) ∧
      ∀ text output, normalizeRsaPem text = .ok output → normalizeRsaPem output = .ok output := by
  constructor
  · intro key text transported
    obtain ⟨before,head,body,foot,after,rfl,front,back,headed,inner,footed⟩ := transported
    have flat : (chunks 64 key.body).flatten = key.body := flatten_chunks (by decide) key.body
    have solid : ∀ c ∈ (chunks 64 key.body).flatten, Text.whiteSpace c = false := by
      rw [flat]
      exact fun c inside => (base64_plain (key.base64 c inside)).2.1
    have restored : restore body = key.body := by
      have lines := restore_lines solid
      rw [flat] at lines
      exact inner.restore.trans lines
    have dashless : ∀ c ∈ body, c ≠ '-' := by
      refine inner.dashless fun c inside => ?_
      obtain ⟨line,there,inside⟩ := List.mem_flatMap.mp inside
      rcases List.mem_append.mp inside with inside | last
      · refine (base64_plain (key.base64 c ?_)).2.2
        rw [← flat]
        exact List.mem_flatten_of_mem there inside
      · rw [List.mem_singleton.mp last]
        decide
    have assembled : assemble key.header.marker key.body key.footer.marker = .ok key.text := by
      rw [assemble,if_neg key.some,bodyLines_ascii fun c inside => (base64_plain (key.base64 c inside)).1]
      rfl
    obtain ⟨gap,newlines,rfl⟩ := headed.line key.header.single
    obtain ⟨gap',newlines',rfl⟩ := footed.line key.footer.single
    have blank {c : Char} (newline : c = '\n') : Text.whiteSpace c = true := by
      rw [newline]
      decide
    have gone : restore (gap ++ body) = key.body := by
      rw [restore_append,restored]
      have nothing : restore gap = [] := by
        refine List.filter_eq_nil_iff.mpr fun c inside => ?_
        obtain ⟨c',there,rfl⟩ := List.mem_map.mp inside
        rw [newlines c' there]
        decide
      rw [nothing,List.nil_append]
    have clear : Clear (gap ++ body) := by
      refine .inl fun c inside => ?_
      rcases List.mem_append.mp inside with inside | inside
      · rw [newlines c inside]
        decide
      · exact dashless c inside
    have trailing : ∀ c ∈ gap' ++ after, Text.whiteSpace c = true := by
      intro c inside
      rcases List.mem_append.mp inside with inside | inside
      · exact blank (newlines' c inside)
      · exact back c inside
    have normalized := normalize_marked front trailing key.header.labelled key.footer.labelled clear
    rw [gone,assembled] at normalized
    rw [← normalized]
    simp only [List.append_assoc]
  · intro text output accepted
    obtain ⟨header,body,lines,footer,headed,footed,solid,cut,rfl,whole⟩ := normalize_ok accepted
    have flat := bodyLines_flatten cut
    have restored : restore ('\n' :: lines.flatMap (· ++ ['\n'])) = body := by
      rw [restore_lines (by rw [flat]; exact solid),flat]
    have spaceless : Clear ('\n' :: lines.flatMap (· ++ ['\n'])) := by
      refine .inr fun c inside => ?_
      rcases List.mem_cons.mp inside with rfl | inside
      · decide
      · obtain ⟨line,there,inside⟩ := List.mem_flatMap.mp inside
        rcases List.mem_append.mp inside with inside | last
        · rintro rfl
          have bad := solid ' ' (by rw [← flat]; exact List.mem_flatten_of_mem there inside)
          exact absurd bad (by decide)
        · rw [List.mem_singleton.mp last]
          decide
    have again := @normalize_marked [] header _ footer ['\n'] nofun (List.forall_mem_singleton.mpr (by decide)) headed footed spaceless
    rw [restored,whole] at again
    rw [← again,laid]
    simp only [List.nil_append,List.append_assoc]

def shortKey : Key where
  header := ⟨"-----BEGIN KEY-----".toList,⟨"KEY".toList,by decide,Text.forall_of_all (by decide),rfl⟩,Text.forall_of_all (by decide)⟩
  body := "a+b=".toList
  footer := ⟨"-----END KEY-----".toList,⟨"KEY".toList,by decide,Text.forall_of_all (by decide),rfl⟩,Text.forall_of_all (by decide)⟩
  some := by decide
  base64 := Text.forall_of_all (by decide)

theorem short_key_normalized :
    normalizeRsaPem " -----BEGIN KEY-----a b=\n-----END KEY-----\n".toList = .ok "-----BEGIN KEY-----\na+b=\n-----END KEY-----\n".toList := by
  have transported : Transported shortKey " -----BEGIN KEY-----a b=\n-----END KEY-----\n".toList := by
    refine ⟨" ".toList,"-----BEGIN KEY-----".toList,"a b=\n".toList,"-----END KEY-----\n".toList,[],rfl,Text.forall_of_all (by decide),nofun,?_,?_,?_⟩
    · exact lost_end shortKey.header.marker
    · exact .kept 'a' (.plus rfl (Damaged.refl true "b=\n".toList))
    · exact Damaged.refl false _
  have normalized := normalize_canonical.1 shortKey _ transported
  have text : shortKey.text = "-----BEGIN KEY-----\na+b=\n-----END KEY-----\n".toList := by decide +kernel
  rw [normalized,text]

end Qdrust.Codec.Pem
