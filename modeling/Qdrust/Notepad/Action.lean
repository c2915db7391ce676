import Mathlib.Data.List.AList
import Mathlib.Data.List.Sort
import Qdrust.Library.Concurrent
import Qdrust.Library.Text
import Qdrust.Store.Model

/-! The notepad of an account and the actions of a template on it, each a routine
of store calls. -/
namespace Qdrust.Notepad
open Library

/-- No row at all, or a row whose content may be `NULL`. -/
inductive NotepadSlot where
  | missing
  | stored (content : Option String)
deriving DecidableEq

structure PluginResponse where
  status : Nat
  body : String
deriving DecidableEq

def notepadText (body : String) : PluginResponse := ⟨200,body⟩

def notepadError (message : String) : PluginResponse := ⟨400,message⟩

inductive StoreCall where
  | read (slot : Int)
  | write (slot : Int) (content : Option String)
  | slots
  | remove (slot : Int)
deriving DecidableEq

def StoreCall.Answer : StoreCall → Type
  | .read _ => NotepadSlot
  | .write _ _ => Unit
  | .slots => List Int
  | .remove _ => Unit

/-- The slots of one account. -/
abbrev Slots := AList fun _ : Int => Option String

def Slots.slot (slots : Slots) (slot : Int) : NotepadSlot :=
  match slots.lookup slot with
  | some content => .stored content
  | none => .missing

/-- `ORDER BY notepad_id`. -/
def Slots.numbers (slots : Slots) : List Int := slots.keys.insertionSort (· ≤ ·)

/-- What the store answers and what becomes of the slots. -/
def store : Concurrent.Handler StoreCall StoreCall.Answer Slots
  | .read slot,slots => (slots.slot slot,slots)
  | .write slot content,slots => ((),slots.insert slot content)
  | .slots,slots => (slots.numbers,slots)
  | .remove slot,slots => ((),slots.erase slot)

abbrev Calls := Routine StoreCall StoreCall.Answer

abbrev PluginAction := Calls PluginResponse

namespace NotepadStore

def read (slot : Int) : Calls NotepadSlot := Routine.ask (.read slot : StoreCall)

def write (slot : Int) (content : Option String) : Calls Unit := Routine.ask (.write slot content : StoreCall)

def slots : Calls (List Int) := Routine.ask (.slots : StoreCall)

def remove (slot : Int) : Calls Unit := Routine.ask (.remove slot : StoreCall)

section Bind

variable {ρ : Type}

@[simp] theorem read_bind (slot : Int) (after : NotepadSlot → Calls ρ) :
    read slot >>= after = .call (.read slot) (Routine.answered after) := Routine.ask_bind _ _

@[simp] theorem write_bind (slot : Int) (content : Option String) (after : Unit → Calls ρ) :
    write slot content >>= after = .call (.write slot content) (Routine.answered after) := Routine.ask_bind _ _

@[simp] theorem slots_bind (after : List Int → Calls ρ) : slots >>= after = .call .slots (Routine.answered after) :=
  Routine.ask_bind _ _

@[simp] theorem remove_bind (slot : Int) (after : Unit → Calls ρ) :
    remove slot >>= after = .call (.remove slot) (Routine.answered after) := Routine.ask_bind _ _

end Bind

end NotepadStore

def notepadLimit : Nat := 20

def notepadContentLimit : Nat := 5 * 1024 * 1024

def notepadIncomplete : String := "参数不完整，请确认"

def notepadIncompleteList : String := "参数不完整, 请确认"

/-- `str::parse::<i64>`. -/
def parseI64 (text : String) : Option Int :=
  let negative := (Text.stripPrefix text "-").isSome
  let digits := ((Text.stripPrefix text "-").or (Text.stripPrefix text "+")).getD text
  if digits ≠ "" && digits.toList.all Char.isDigit then
    let magnitude : Nat := digits.toList.foldl (fun value c => value * 10 + (c.toNat - 48)) 0
    let value : Int := if negative then -(magnitude : Int) else magnitude
    if -9223372036854775808 ≤ value && value ≤ 9223372036854775807 then some value else none
  else none

/-- The arguments of a request, those of its form among them. -/
abbrev Query := List (String × String)

def flagOf (query : Query) (list : Bool) : String := (query.lookup "f").getD (if list then "list" else "")

/-- The number that is asked for: `-1` on the list route asks for none. -/
def slotOf (query : Query) (list : Bool) : Option Int :=
  let raw := (query.lookup "id_notepad").getD (if list then "" else "1")
  if list && raw = "" then some (-1) else parseI64 raw

def writing (flag : String) : Bool := Text.contains flag "write"

def appending (flag : String) : Bool := !writing flag && Text.contains flag "append"

def appended (stored : Option String) (data : String) : String :=
  match stored with
  | some existing => existing ++ "\r\n" ++ data
  | none => data

/-- The management route, after its arguments are read. -/
def notepadListAction (query : Query) (flag : String) (slot : Int) : PluginAction := do
  let slots ← NotepadStore.slots
  let slots := slots.insertionSort (· ≤ ·)
  if slots = [] then return notepadError "无法获取该用户记事本编号"
  else if Text.contains flag "add" then
    if slots.length ≥ notepadLimit then
      return notepadError ("记事本数量超过上限, limit: " ++ toString notepadLimit)
    else if slot ≠ -1 ∧ slot ∈ slots then return notepadError ("记事本编号已存在, id_notepad: " ++ toString slot)
    else
      let content := match query.lookup "data" with
        | none | some "" => none
        | some data => some data
      let target := if slot = -1 then Store.addI64 ((slots.getLast?).getD 0) 1 else slot
      NotepadStore.write target content
      return notepadText ("添加成功, id_notepad: " ++ toString target)
  else if Text.contains flag "delete" then
    if slot ≤ 0 then return notepadError "id_notepad参数不完整, 请确认"
    else if slot ∉ slots then return notepadError ("记事本编号不存在, id_notepad: " ++ toString slot)
    else if slot = 1 then return notepadError "默认记事本不能删除"
    else
      NotepadStore.remove slot
      return notepadText ("删除成功, id_notepad: " ++ toString slot)
  else if Text.contains flag "list" then
    return notepadText ("[" ++ String.intercalate ", " (slots.map toString) ++ "]")
  else return notepadError notepadIncompleteList

/-- The end of an action on one slot that holds `stored`. -/
def notepadWrite (query : Query) (flag : String) (slot : Int) (stored : Option String) : PluginAction :=
  let data := (query.lookup "data").getD ""
  let body := if writing flag then data else if appending flag then appended stored data else stored.getD ""
  if writing flag || appending flag then
    if body.utf8ByteSize > notepadContentLimit then
      return notepadError ("记事本内容超过上限, limit: " ++ toString notepadContentLimit)
    else do
      NotepadStore.write slot (some body)
      return notepadText body
  else return notepadText body

/-- `attached` tells whether the run has a store behind it. -/
def notepadSlotAction (attached : Bool) (query : Query) (list : Bool) : PluginAction :=
  if !attached then .failed
  else
    let flag := flagOf query list
    if flag = "" then return notepadError (if list then notepadIncompleteList else notepadIncomplete)
    else match slotOf query list with
      | none => return notepadError ("id_notepad 不是一个整数: " ++ (query.lookup "id_notepad").getD "")
      | some slot =>
        if list then notepadListAction query flag slot
        else do
          let read ← NotepadStore.read slot
          match read with
          | .missing =>
            if slot = 1 then do
              NotepadStore.write slot none
              notepadWrite query flag slot none
            else return notepadError "记事本不存在"
          | .stored content => notepadWrite query flag slot content

section Equations

/-- What follows the read of a slot. -/
def afterRead (query : Query) (slot : Int) : NotepadSlot → PluginAction
  | .missing =>
    if slot = 1 then .call (.write slot none) (Routine.answered fun _ => notepadWrite query (flagOf query false) slot none)
    else .done (notepadError "记事本不存在")
  | .stored content => notepadWrite query (flagOf query false) slot content

theorem notepadSlotAction_read {query : Query} {slot : Int} (flag : flagOf query false ≠ "")
    (named : slotOf query false = some slot) :
    notepadSlotAction true query false = .call (.read slot) (Routine.answered (afterRead query slot)) := by
  simp only [notepadSlotAction,Bool.not_true,Bool.false_eq_true,if_false,named,if_neg flag,NotepadStore.read_bind]
  refine congrArg (fun after => Routine.call (StoreCall.read slot) (Routine.answered after)) (funext fun seen => ?_)
  cases seen with
  | stored content => rfl
  | missing =>
    simp only [afterRead,NotepadStore.write_bind,Routine.pure_eq]
    rfl

/-- An action makes no call unless its arguments are read. -/
theorem notepadSlotAction_refused {query : Query} {list : Bool} (refused : flagOf query list = "" ∨ slotOf query list = none) :
    ∃ response, notepadSlotAction true query list = .done response ∧ response.status = 400 := by
  unfold notepadSlotAction
  simp only [Bool.not_true,Bool.false_eq_true,if_false]
  by_cases flag : flagOf query list = ""
  · rw [if_pos flag]
    exact ⟨_,rfl,rfl⟩
  · rw [if_neg flag,refused.resolve_left flag]
    exact ⟨_,rfl,rfl⟩

end Equations

end Qdrust.Notepad
