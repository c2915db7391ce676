import Qdrust.Store.Templates

/-! A template is accepted by `parse_qd`, stored as it was sent and executed
through `parse`. The two readings agree exactly where the document says
everything itself. -/
namespace Qdrust.Har
open Library

/-- What an enabled entry has to say itself: its rules stand at the entry, its
headers and cookies carry their flag, and its body is under `postData`. -/
structure WrittenOut (entry request : Fields) : Prop where
  rules : ∀ key ∈ ruleKeys, entry.containsKey key = true ∨ nestedRule entry key = none ∨
    nestedRule entry key = some (.arr [])
  headers : ∀ item, .obj item ∈ request.items "headers" → Fields.containsKey item "checked" = true
  cookies : ∀ item, .obj item ∈ request.items "cookies" → Fields.containsKey item "checked" = true
  body : request.get "postData" = none → request.text "data" = none ∧ request.text "mimeType" = none
  text : ∀ post, request.object "postData" = some post → post.containsKey "text" = true ∨
    (request.text "data" = none ∧ post.list "params" = none)
  mimeType : ∀ post, request.object "postData" = some post → post.containsKey "mimeType" = true ∨
    request.text "mimeType" = none

def EntryAsWritten (json : Json) : Prop := ∀ entry request : Fields, json = .obj entry →
  entry.object "request" = some request → entry.containsKey "checked" = true ∧
    (entry.get "checked" = some (.bool true) → WrittenOut entry request)

theorem rules_plain {α : Type} {rule : Json → Option α} {entry : Fields} {key : String} {rows : List α}
    (read : RulesRead rule entry key rows) :
    ∃ plain, Json.fieldD entry key [] (Json.vec rule) = some plain ∧
      (plain = rows ↔ entry.containsKey key = true ∨ nestedRule entry key = none ∨
        nestedRule entry key = some (.arr [])) := by
  unfold RulesRead at read
  rw [Json.fieldD,Fields.containsKey]
  cases top : entry.get key with
  | some json =>
    rw [top,Option.some_or] at read
    exact ⟨rows,read,by simp⟩
  | none =>
    rw [top,Option.none_or] at read
    refine ⟨[],rfl,?_⟩
    cases nested : nestedRule entry key with
    | none =>
      rw [nested] at read
      cases read
      simp
    | some json =>
      rw [nested] at read
      obtain ⟨items,rfl,related⟩ := Json.vec_eq_some.mp read
      have related := Json.mapM_eq_some.mp related
      constructor
      · rintro rfl
        cases related
        simp
      · intro condition
        have empty : items = [] := by simpa using condition
        subst items
        cases related
        rfl

theorem nameValue_plain {item : Fields} {row : QdNameValue} (read : NameValueAt true item row) :
    ∃ plain, NameValueAt false item plain ∧ (plain = row ↔ item.containsKey "checked" = true) := by
  obtain ⟨checked,checkedRead,same⟩ := Json.fieldD_other read.checked false
  refine ⟨⟨row.name,row.value,checked⟩,⟨read.name,read.value,checkedRead⟩,?_⟩
  have fields : (⟨row.name,row.value,checked⟩ : QdNameValue) = row ↔ checked = row.checked := by
    cases row
    simp
  rw [fields,same]
  simp

theorem nameValues_plain {request : Fields} {key : String} {rows : List QdNameValue}
    (read : NameValuesRead true request key rows) :
    ∃ plain, NameValuesRead false request key plain ∧
      (plain = rows ↔ ∀ item, .obj item ∈ request.items key → Fields.containsKey item "checked" = true) := by
  obtain ⟨shape,related⟩ := read
  suffices each : ∃ plain, List.Forall₂ (fun json row => ∃ item, json = .obj item ∧ NameValueAt false item row)
      (request.items key) plain ∧
      (plain = rows ↔ ∀ item, .obj item ∈ request.items key → Fields.containsKey item "checked" = true) by
    obtain ⟨plain,rest,same⟩ := each
    exact ⟨plain,⟨shape,rest⟩,same⟩
  generalize request.items key = items at related
  induction related with
  | nil => exact ⟨[],.nil,by simp⟩
  | cons head _ ih =>
    obtain ⟨item,rfl,read⟩ := head
    obtain ⟨plain,plainRead,same⟩ := nameValue_plain read
    obtain ⟨others,othersRead,rest⟩ := ih
    refine ⟨plain :: others,.cons ⟨item,rfl,plainRead⟩ othersRead,?_⟩
    rw [List.cons.injEq,same,rest]
    simp

theorem post_plain {request : Fields} {body : Option QdPostData} (read : PostReads request body) :
    ∃ plain, Json.fieldD request "postData" none (Json.opt QdPostData.fromJson) = some plain ∧
      (plain = body ↔
        (request.get "postData" = none → request.text "data" = none ∧ request.text "mimeType" = none) ∧
        (∀ post, request.object "postData" = some post → post.containsKey "text" = true ∨
          (request.text "data" = none ∧ post.list "params" = none)) ∧
        (∀ post, request.object "postData" = some post → post.containsKey "mimeType" = true ∨
          request.text "mimeType" = none)) := by
  unfold PostReads at read
  rw [Json.fieldD,Fields.object]
  cases present : request.get "postData" with
  | none =>
    rw [present] at read
    refine ⟨none,rfl,?_⟩
    subst body
    cases request.text "data" <;> cases request.text "mimeType" <;> simp
  | some json =>
    rw [present] at read
    cases json with
    | null =>
      cases read
      exact ⟨none,rfl,by simp [Json.asObj]⟩
    | obj post =>
      obtain ⟨mimeType,text,rfl,mimeRead,textRead⟩ := read
      obtain ⟨mime,mimePlain,sameMime⟩ := Json.fieldD_other mimeRead none
      obtain ⟨plain,textPlain,sameText⟩ := Json.fieldD_other textRead none
      have unset : none = textDefault request post ↔
          request.text "data" = none ∧ Fields.list post "params" = none := by
        rw [textDefault]
        cases request.text "data" <;> cases Fields.list post "params" <;> simp
      have noMime : none = request.text "mimeType" ↔ request.text "mimeType" = none := eq_comm
      refine ⟨some ⟨mime,plain,Fields.get post "params"⟩,?_,?_⟩
      · exact opt_postData.mpr (.inr ⟨post,_,rfl,rfl,postData_fromJson.mpr ⟨_,_,rfl,mimePlain,textPlain⟩⟩)
      · rw [Option.some.injEq,QdPostData.mk.injEq,sameMime,sameText,unset,noMime]
        simp [Json.asObj,and_comm]
    | _ => cases read

/-- The flag as it was read: written, or absent and set. -/
theorem checked_cases {entry : Fields} {checked : Bool}
    (read : Json.fieldD entry "checked" true Json.asBool = some checked) :
    entry.get "checked" = some (.bool checked) ∨ (entry.get "checked" = none ∧ checked = true) := by
  rw [Json.fieldD] at read
  cases present : entry.get "checked" with
  | none =>
    rw [present] at read
    exact .inr ⟨rfl,(Option.some.inj read).symm⟩
  | some json =>
    rw [present] at read
    exact .inl (congrArg some (Json.asBool_eq_some.mp read))

theorem entryAsWritten_iff {entry request : Fields} (requested : entry.object "request" = some request) :
    EntryAsWritten (.obj entry) ↔ entry.containsKey "checked" = true ∧
      (entry.get "checked" = some (.bool true) → WrittenOut entry request) := by
  constructor
  · intro written
    exact written entry request rfl requested
  · rintro written _ other same requestedToo
    cases same
    cases Option.some.inj (requested.symm.trans requestedToo)
    exact written

/-- The plain reading of an entry that `parse_qd` reads: it always exists, it
enables no more, and it is the same where the entry is written out. -/
theorem entry_plain {entry request : Fields} {read : QdHarEntry} (reads : Reads entry request read) :
    ∃ plain, QdHarEntry.fromJson (.obj entry) = some plain ∧ (plain.checked = true → read.checked = true) ∧
      ((read.checked = true → plain = read) ↔ EntryAsWritten (.obj entry)) := by
  obtain ⟨headers,headersRead,sameHeaders⟩ := nameValues_plain reads.headers
  obtain ⟨cookies,cookiesRead,sameCookies⟩ := nameValues_plain reads.cookies
  obtain ⟨post,postRead,samePost⟩ := post_plain reads.postData
  obtain ⟨success,successRead,sameSuccess⟩ := rules_plain reads.successAsserts
  obtain ⟨failed,failedRead,sameFailed⟩ := rules_plain reads.failedAsserts
  obtain ⟨extract,extractRead,sameExtract⟩ := rules_plain reads.extractVariables
  have requested : entry.get "request" = some (.obj request) := by
    obtain ⟨json,present,object⟩ := Option.bind_eq_some_iff.mp reads.requested
    rw [present,Json.asObj_eq_some.mp object]
  have decodes : ∀ checked, Json.fieldD entry "checked" false Json.asBool = some checked →
      QdHarEntry.fromJson (.obj entry) = some ⟨checked,read.comment,
        ⟨read.request.method,read.request.url,headers,cookies,post⟩,success,failed,extract⟩ := by
    intro checked checkedRead
    refine entry_fromJson.mpr ⟨entry,rfl,checkedRead,reads.comment,?_,successRead,failedRead,extractRead⟩
    rw [Json.field,requested]
    exact request_fromJson.mpr ⟨request,rfl,reads.method,reads.url,nameValues_fromJson.mpr headersRead,
      nameValues_fromJson.mpr cookiesRead,postRead⟩
  rw [entryAsWritten_iff reads.requested]
  rcases checked_cases reads.checked with written | ⟨absent,enabled⟩
  · refine ⟨_,decodes read.checked (by rw [Json.fieldD,written]; rfl),id,?_⟩
    have present : entry.containsKey "checked" = true := by rw [Fields.containsKey,written]; rfl
    have flag : entry.get "checked" = some (.bool true) ↔ read.checked = true := by rw [written]; simp
    rw [flag,and_iff_right present]
    refine imp_congr_right fun _ => ?_
    have fields : QdHarEntry.mk read.checked read.comment
        ⟨read.request.method,read.request.url,headers,cookies,post⟩ success failed extract = read ↔
        (headers = read.request.headers ∧ cookies = read.request.cookies ∧ post = read.request.postData) ∧
          success = read.successAsserts ∧ failed = read.failedAsserts ∧ extract = read.extractVariables := by
      obtain ⟨checked,comment,⟨_,_,_,_,_⟩,_,_,_⟩ := read
      simp
    rw [fields,sameHeaders,sameCookies,samePost,sameSuccess,sameFailed,sameExtract]
    constructor
    · rintro ⟨⟨headers,cookies,body,text,mimeType⟩,success,failed,extract⟩
      exact ⟨by simpa [ruleKeys] using ⟨success,failed,extract⟩,headers,cookies,body,text,mimeType⟩
    · rintro ⟨rules,headers,cookies,body,text,mimeType⟩
      exact ⟨⟨headers,cookies,body,text,mimeType⟩,rules _ (by decide),rules _ (by decide),rules _ (by decide)⟩
  · refine ⟨_,decodes false (by rw [Json.fieldD,absent]; rfl),fun on => absurd on Bool.false_ne_true,?_⟩
    have missing : entry.containsKey "checked" = false := by rw [Fields.containsKey,absent]; rfl
    constructor
    · intro same
      have flag := congrArg QdHarEntry.checked (same enabled)
      rw [enabled] at flag
      cases flag
    · rintro ⟨present,_⟩
      rw [missing] at present
      cases present

/-- The plain readings of all entries of an accepted document, and where the
enabled ones agree. -/
theorem entries_plain {items : List Json} {entries : List QdHarEntry}
    (related : List.Forall₂ ReadAs items entries) :
    ∃ plain, items.mapM QdHarEntry.fromJson = some plain ∧
      (plain.filter QdHarEntry.checked = entries.filter QdHarEntry.checked ↔
        ∀ item ∈ items, EntryAsWritten item) := by
  have plainOf : ∀ item read, ReadAs item read → ∃ plain, QdHarEntry.fromJson item = some plain ∧
      (plain.checked = true → read.checked = true) ∧
      ((read.checked = true → plain = read) ↔ EntryAsWritten item) := by
    rintro _ read ⟨entry,request,rfl,reads⟩
    exact entry_plain reads
  have exist : ∃ plain, List.Forall₂ (fun json value => QdHarEntry.fromJson json = some value) items plain := by
    induction related with
    | nil => exact ⟨[],.nil⟩
    | cons head _ ih =>
      obtain ⟨plain,decoded,_⟩ := plainOf _ _ head
      obtain ⟨others,rest⟩ := ih
      exact ⟨plain :: others,.cons decoded rest⟩
  obtain ⟨plain,decoded⟩ := exist
  refine ⟨plain,Json.mapM_eq_some.mpr decoded,filter_eq_filter_iff decoded related ?_ ?_⟩
  · intro item value read decodes readAs
    obtain ⟨_,same,fewer,_⟩ := plainOf item read readAs
    cases Option.some.inj (decodes.symm.trans same)
    exact fewer
  · intro item value read decodes readAs
    obtain ⟨_,same,_,agree⟩ := plainOf item read readAs
    cases Option.some.inj (decodes.symm.trans same)
    exact agree

/-- The run of a template executes the entries `parse_qd` accepted. -/
def ExecutesAs (source : Json) (har : QdHar) : Prop :=
  ∃ stored, QdHar.parse source = .ok stored ∧ stored.enabledEntries = har.enabledEntries ∧
    Store.loadProgram source = QdProgram.compile har

/-- A bare array of one entry that is itself a log with the same program. -/
def OwnLog (items : List Json) : Prop :=
  ∃ (log : Fields) (inner : List Json) (plain : List QdHarEntry) (outer : QdHarEntry),
    items = [.obj log] ∧ log.text "version" = some "1.2" ∧ log.list "entries" = some inner ∧ inner ≠ [] ∧
    inner.mapM QdHarEntry.fromJson = some plain ∧ ReadAs (.obj log) outer ∧
    plain.filter QdHarEntry.checked = [outer].filter QdHarEntry.checked

/-- A document that says everything itself. What `parse_qd` does not rewrite is
read alike. -/
def AsWritten : Json → Prop
  | .arr items => OwnLog items
  | json => ∀ document log items, json.asObj = some document → document.object "log" = some log →
      log.list "entries" = some items → log.text "version" = some "1.2" ∧ ∀ item ∈ items, EntryAsWritten item

/-- The enabled entries decide the program. -/
theorem executesAs_iff {source : Json} {har : QdHar} : ExecutesAs source har ↔
    ∃ stored, QdHar.parse source = .ok stored ∧ stored.enabledEntries = har.enabledEntries := by
  constructor
  · rintro ⟨stored,parsed,same,_⟩
    exact ⟨stored,parsed,same⟩
  · rintro ⟨stored,parsed,same⟩
    refine ⟨stored,parsed,same,?_⟩
    rw [Store.loadProgram,parsed]
    change QdProgram.compile stored = QdProgram.compile har
    rw [QdProgram.compile,QdProgram.compile,same]

theorem log_fromJson {log : Fields} {items : List Json} {document : HarLog}
    (listed : log.list "entries" = some items) :
    HarLog.fromJson (.obj log) = some document ↔ ∃ version entries, document = ⟨version,entries⟩ ∧
      log.text "version" = some version ∧ items.mapM QdHarEntry.fromJson = some entries := by
  have entriesField : Json.field log "entries" (Json.vec QdHarEntry.fromJson) =
      items.mapM QdHarEntry.fromJson := by
    obtain ⟨json,present,array⟩ := Option.bind_eq_some_iff.mp listed
    rw [Json.field,present,Json.asArr_eq_some.mp array]
    rfl
  simp only [HarLog.fromJson,Json.record,Option.bind_eq_bind,Option.bind_some,Option.bind_eq_some_iff,
    Option.pure_def,Option.some.injEq,entriesField]
  constructor
  · rintro ⟨version,versioned,entries,decoded,rfl⟩
    exact ⟨version,entries,rfl,versioned,decoded⟩
  · rintro ⟨version,entries,rfl,versioned,decoded⟩
    exact ⟨version,versioned,entries,decoded,rfl⟩

/-- What the plain reader makes of a log with entries. -/
theorem parse_log {raw : Json} {log : Fields} {items : List Json} {har : QdHar}
    (wraps : HarDocument.fromJson raw = (HarLog.fromJson (.obj log)).map HarDocument.mk)
    (listed : log.list "entries" = some items) :
    (∃ stored, QdHar.parse raw = .ok stored ∧ stored.enabledEntries = har.enabledEntries) ↔
      log.text "version" = some "1.2" ∧ ∃ entries, items.mapM QdHarEntry.fromJson = some entries ∧
        entries ≠ [] ∧ (∀ entry ∈ entries, entry.checked = true → entry.Valid) ∧
        entries.filter QdHarEntry.checked = har.enabledEntries := by
  constructor
  · rintro ⟨stored,parsed,same⟩
    unfold QdHar.parse at parsed
    rw [wraps] at parsed
    cases read : HarLog.fromJson (.obj log) with
    | none =>
      rw [read] at parsed
      cases parsed
    | some document =>
      rw [read] at parsed
      obtain ⟨version,nonempty,valid,rfl⟩ := QdHar.finishParse_ok.mp parsed
      obtain ⟨_,entries,rfl,versioned,decoded⟩ := (log_fromJson listed).mp read
      cases version
      exact ⟨versioned,entries,decoded,nonempty,valid,same⟩
  · rintro ⟨version,entries,decoded,nonempty,valid,same⟩
    have read : HarLog.fromJson (.obj log) = some ⟨"1.2",entries⟩ :=
      (log_fromJson listed).mpr ⟨_,entries,rfl,version,decoded⟩
    refine ⟨⟨raw,⟨⟨"1.2",entries⟩⟩⟩,?_,same⟩
    unfold QdHar.parse
    rw [wraps,read]
    exact QdHar.finishParse_ok.mpr ⟨rfl,nonempty,valid,rfl⟩

theorem qdEntries_document {document : Fields} {items : List Json} : qdEntries (.obj document) = some items ↔
    ∃ log, document.object "log" = some log ∧ log.list "entries" = some items := by
  have wrapped : qdEntries (.obj document) = (document.object "log").bind fun log => log.list "entries" := rfl
  rw [wrapped,Option.bind_eq_some_iff]

theorem document_fromJson {document log : Fields} (logged : document.object "log" = some log) :
    HarDocument.fromJson (.obj document) = (HarLog.fromJson (.obj log)).map HarDocument.mk := by
  obtain ⟨json,present,object⟩ := Option.bind_eq_some_iff.mp logged
  rw [Json.asObj_eq_some.mp object] at present
  simp only [HarDocument.fromJson,Json.record,Option.bind_eq_bind,Option.bind_some,Json.field,present]
  cases HarLog.fromJson (.obj log) <;> rfl

/-- For a document around a log with entries. -/
theorem executes_document {document log : Fields} {items : List Json} {har : QdHar}
    (logged : document.object "log" = some log) (listed : log.list "entries" = some items)
    (accepted : QdHar.parseQd (.obj document) = .ok har) :
    ExecutesAs (.obj document) har ↔
      log.text "version" = some "1.2" ∧ ∀ item ∈ items, EntryAsWritten item := by
  obtain ⟨entries,related,nonempty,valid,rfl⟩ := (parseQd_ok (qdEntries_document.mpr ⟨log,logged,listed⟩)).mp accepted
  obtain ⟨plain,decoded,agree⟩ := entries_plain related
  rw [executesAs_iff,parse_log (document_fromJson logged) listed,← agree]
  refine and_congr_right fun _ => ⟨?_,fun same => ⟨plain,decoded,?_,?_,same⟩⟩
  · rintro ⟨others,otherwise,_,_,same⟩
    cases Option.some.inj (decoded.symm.trans otherwise)
    exact same
  · rintro rfl
    cases Json.mapM_eq_some.mp decoded
    cases related
    exact nonempty rfl
  · intro entry member enabled
    have kept : entry ∈ entries.filter QdHarEntry.checked := same ▸ List.mem_filter.mpr ⟨member,enabled⟩
    exact valid entry (List.mem_of_mem_filter kept) enabled

/-- A bare array is no document, unless its one entry is a log as well. -/
theorem executes_array {items : List Json} {har : QdHar} (accepted : QdHar.parseQd (.arr items) = .ok har) :
    ExecutesAs (.arr items) har ↔ OwnLog items := by
  have found : qdEntries (.arr items) = some items := rfl
  obtain ⟨entries,related,nonempty,valid,rfl⟩ := (parseQd_ok found).mp accepted
  have wraps : ∀ log : Fields, HarDocument.fromJson (.arr [.obj log]) =
      (HarLog.fromJson (.obj log)).map HarDocument.mk := by
    intro log
    change (HarLog.fromJson (.obj log)).bind (fun log => some (HarDocument.mk log)) = _
    cases HarLog.fromJson (.obj log) <;> rfl
  rw [executesAs_iff]
  constructor
  · rintro ⟨stored,parsed,same⟩
    have single : ∃ item, items = [item] := by
      cases items with
      | nil =>
        cases related
        exact absurd rfl nonempty
      | cons item rest =>
        cases rest with
        | nil => exact ⟨item,rfl⟩
        | cons other rest =>
          have refused : HarDocument.fromJson (.arr (item :: other :: rest)) = none := by
            simp [HarDocument.fromJson,Json.record]
          rw [QdHar.parse,refused] at parsed
          cases parsed
    obtain ⟨item,rfl⟩ := single
    obtain ⟨outer,rfl,⟨log,request,rfl,reads⟩⟩ : ∃ outer, entries = [outer] ∧ ReadAs item outer := by
      cases related with
      | cons head rest =>
        cases rest
        exact ⟨_,rfl,head⟩
    cases listed : log.list "entries" with
    | none =>
      have refused : HarLog.fromJson (.obj log) = none := by
        have noEntries : Json.field log "entries" (Json.vec QdHarEntry.fromJson) = none := by
          rw [Fields.list] at listed
          cases present : log.get "entries" with
          | none => simp [Json.field,present]
          | some json =>
            rw [present,Option.bind_some] at listed
            simp [Json.field,present,Json.vec,listed]
        simp [HarLog.fromJson,Json.record,noEntries]
      rw [QdHar.parse,wraps,refused] at parsed
      cases parsed
    | some inner =>
      obtain ⟨version,plain,decoded,some,_,same⟩ := (parse_log (wraps log) listed).mp ⟨stored,parsed,same⟩
      refine ⟨log,inner,plain,outer,rfl,version,listed,?_,decoded,⟨log,request,rfl,reads⟩,same⟩
      rintro rfl
      cases decoded
      exact some rfl
  · rintro ⟨log,inner,plain,outer,rfl,version,listed,inside,decoded,read,same⟩
    have only : entries = [outer] := by
      cases related with
      | @cons _ first _ _ head rest =>
        cases rest
        rw [readAs_unique head read]
    subst only
    refine (parse_log (wraps log) listed).mpr ⟨version,plain,decoded,?_,?_,same⟩
    · rintro rfl
      cases Json.mapM_eq_some.mp decoded
      exact inside rfl
    · intro entry member enabled
      have kept : entry ∈ [outer].filter QdHarEntry.checked := same ▸ List.mem_filter.mpr ⟨member,enabled⟩
      exact valid entry (List.mem_of_mem_filter kept) enabled

/-- What is not rewritten is read alike. -/
theorem executes_unchanged {source : Json} {har : QdHar} (unchanged : qdEntries source = none)
    (accepted : QdHar.parseQd source = .ok har) : ExecutesAs source har := by
  refine executesAs_iff.mpr ⟨har,?_,rfl⟩
  rw [QdHar.parseQd,normalizeQdDocument,unchanged] at accepted
  exact accepted

theorem executes_iff {source : Json} {har : QdHar} (accepted : QdHar.parseQd source = .ok har) :
    ExecutesAs source har ↔ AsWritten source := by
  cases source with
  | arr items => exact executes_array accepted
  | obj document =>
    cases found : qdEntries (.obj document) with
    | some items =>
      obtain ⟨log,logged,listed⟩ := qdEntries_document.mp found
      rw [executes_document logged listed accepted]
      constructor
      · rintro written _ otherLog others same alsoLogged alsoListed
        cases same
        cases Option.some.inj (logged.symm.trans alsoLogged)
        cases Option.some.inj (listed.symm.trans alsoListed)
        exact written
      · intro written
        exact written document log items rfl logged listed
    | none =>
      refine iff_of_true (executes_unchanged found accepted) ?_
      intro _ log items same logged listed
      cases same
      rw [qdEntries_document.mpr ⟨log,logged,listed⟩] at found
      cases found
  | _ => exact iff_of_true (executes_unchanged rfl accepted) nofun

/-- For every stored template, whatever calls wrote it: it was accepted, and its
run executes the accepted entries exactly where its document says everything. -/
theorem executed_as_accepted_iff {templates : Store.Templates}
    (reach : Transition.Reachable Store.templateStep ⟨[],1⟩ templates) {row : Store.TemplateRow}
    (stored : row ∈ templates.rows) {source : Json} (qd : row.source = .qdHar source) :
    ∃ har, QdHar.parseQd source = .ok har ∧ (ExecutesAs source har ↔ AsWritten source) := by
  obtain ⟨har,accepted⟩ := Store.reachable_accepted reach row stored source qd
  exact ⟨har,accepted,executes_iff accepted⟩

/-- A request with one header, and the entry of an export around it. -/
def startRequest (item : Fields) : Json := .obj [("method",.str "GET"),("url",.str "https://example.invalid/"),
  ("headers",.arr [.obj item])]

def exportedHeader : Fields := [("name",.str "Accept"),("value",.str "*/*")]

def exported : Json := .arr [.obj [("request",startRequest exportedHeader)]]

/-- The same with a log, but with no flag on the header. -/
def wrapped : Json := harLog "QD" "1" [.obj [("checked",.bool true),("request",startRequest exportedHeader)]]

def written : Json := harLog "QD" "1"
  [.obj [("checked",.bool true),("request",startRequest (exportedHeader ++ [("checked",.bool true)]))]]

def sentHeaders (har : QdHar) : List (List Bool) :=
  har.enabledEntries.map fun entry => entry.request.headers.map QdNameValue.checked

/-- An exported array is imported and then refused by every run; a header
without its flag is accepted as sent and then left out. -/
theorem export_not_executed :
    (∃ templates row har, Transition.Reachable Store.templateStep ⟨[],1⟩ templates ∧ row ∈ templates.rows ∧
      row.source = .qdHar exported ∧ QdHar.parseQd exported = .ok har ∧ ¬ExecutesAs exported har) ∧
    (QdHar.parseQd wrapped).map sentHeaders = .ok [[true]] ∧ (QdHar.parse wrapped).map sentHeaders = .ok [[false]] := by
  refine ⟨?_,rfl,rfl⟩
  have ran : (Transition.exec Store.templateStep ⟨[],1⟩ [.importHar none "start" exported]).isSome := by decide
  refine ⟨_,⟨1,none,"start",.qdHar exported,false⟩,_,Transition.reachable_get _ _ ran,?_,rfl,rfl,?_⟩
  · exact List.mem_singleton.mpr rfl
  · rintro ⟨stored,parsed,_⟩
    have refused : QdHar.parse exported = .error "invalid QD HAR document" := rfl
    rw [refused] at parsed
    cases parsed

theorem written_asWritten : AsWritten written := by
  intro document log items same logged listed
  cases same
  cases (Option.some.inj logged : _ = log)
  cases (Option.some.inj listed : _ = items)
  refine ⟨rfl,?_⟩
  intro item member entry request same requested
  cases List.mem_singleton.mp member
  cases same
  cases (Option.some.inj requested : _ = request)
  refine ⟨rfl,fun _ => ⟨?_,?_,?_,?_,?_,?_⟩⟩
  · intro key _
    exact .inr (.inl rfl)
  · intro item member
    cases List.mem_singleton.mp member
    rfl
  · exact nofun
  · exact fun _ => ⟨rfl,rfl⟩
  · exact nofun
  · exact nofun

theorem executed_as_accepted_written : ∃ har, QdHar.parseQd written = .ok har ∧ ExecutesAs written har := by
  have ran : (Transition.exec Store.templateStep ⟨[],1⟩ [.importHar none "start" written]).isSome := by decide
  have stored : ⟨1,none,"start",.qdHar written,false⟩ ∈ ((Transition.exec Store.templateStep ⟨[],1⟩
      [.importHar none "start" written]).get ran).rows := List.mem_singleton.mpr rfl
  obtain ⟨har,accepted,same⟩ := executed_as_accepted_iff (Transition.reachable_get _ _ ran) stored rfl
  exact ⟨har,accepted,same.mpr written_asWritten⟩

end Qdrust.Har
