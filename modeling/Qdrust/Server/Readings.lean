import Mathlib.Data.List.SplitOn
import Qdrust.Executor.Address
import Qdrust.Library.Digits
import Qdrust.Library.Json
import Qdrust.Library.Text

/-! How the values of a deployment are written: numbers, switches and addresses of the
standard library, and the lists, paths and names that the server normalises. -/
namespace Qdrust.Server
open Library

section Values

/-- `FromStr` of the unsigned integers below a bound. -/
def parseUnsigned (bound : Nat) (text : String) : Option Nat :=
  let digits := if text.toList.head? = some '+' then text.toList.tail else text.toList
  if digits ≠ [] ∧ digits.all Char.isDigit ∧ Digits.natValue digits < bound then some (Digits.natValue digits) else none

def parseBool (text : String) : Option Bool :=
  if text = "true" then some true else if text = "false" then some false else none

def trim (text : String) : String := Text.trimBy Text.whiteSpace text

/-- `s.trim().is_empty()`. -/
def blank (text : String) : Bool := Text.blankBy Text.whiteSpace text

def asciiLowercase (text : String) : String := String.ofList (text.toList.map Char.toLower)

/-- `v.trim().eq_ignore_ascii_case("true")`. -/
def truthy (text : String) : Bool := asciiLowercase (trim text) = "true"

/-- The trimmed parts between commas that are not empty. -/
def commaParts (text : String) : List String :=
  ((text.toList.splitOn ',').map fun part => trim (String.ofList part)).filter (· ≠ "")

end Values

section Addresses

variable {α : Type}

/-- `read_number`, for a type of the values below a bound. -/
def readNumber (digit : Char → Option Nat) (radix maxDigits : Nat) (zeroPrefix : Bool) (bound : Nat) (text : List Char) :
    Option (Nat × List Char) :=
  let digits := text.takeWhile fun c => (digit c).isSome
  let value := digits.foldl (fun value c => value * radix + (digit c).getD 0) 0
  if digits = [] ∨ maxDigits < digits.length ∨ (!zeroPrefix ∧ digits.head? = some '0' ∧ 1 < digits.length) ∨ bound ≤ value then
    none
  else some (value,text.drop digits.length)

def decimalDigit (c : Char) : Option Nat := if c.isDigit then some (c.toNat - 48) else none

def hexDigit (c : Char) : Option Nat :=
  if c.isDigit then some (c.toNat - 48)
  else if 'a' ≤ c ∧ c ≤ 'f' then some (c.toNat - 87)
  else if 'A' ≤ c ∧ c ≤ 'F' then some (c.toNat - 55)
  else none

/-- `read_separator`, whose first element has no separator. -/
def readSeparated (separator : Char) (later : Bool) (read : List Char → Option (α × List Char)) (text : List Char) :
    Option (α × List Char) :=
  if later then if text.head? = some separator then read text.tail else none else read text

def readIpv4 (text : List Char) : Option (Executor.Ipv4 × List Char) := do
  let octet := readNumber decimalDigit 10 3 false 256
  let (a,text) ← octet text
  let (b,text) ← readSeparated '.' true octet text
  let (c,text) ← readSeparated '.' true octet text
  let (d,text) ← readSeparated '.' true octet text
  some (⟨a.toUInt8,b.toUInt8,c.toUInt8,d.toUInt8⟩,text)

/-- `read_groups`: the groups, whether they end with an IPv4 address, and what is left. -/
def readGroups : Nat → Bool → List Char → List UInt16 × Bool × List Char
  | 0,_,text => ([],false,text)
  | slots + 1,later,text =>
    match if 0 < slots then readSeparated ':' later readIpv4 text else none with
    | some (ip,rest) => ([ip.a.toUInt16 * 256 + ip.b.toUInt16,ip.c.toUInt16 * 256 + ip.d.toUInt16],true,rest)
    | none =>
      match readSeparated ':' later (readNumber hexDigit 16 4 true 65536) text with
      | some (group,rest) =>
        let groups := readGroups slots true rest
        (group.toUInt16 :: groups.1,groups.2)
      | none => ([],false,text)

def ofSegments : List UInt16 → Option Executor.Ipv6
  | [s0,s1,s2,s3,s4,s5,s6,s7] => some ⟨s0,s1,s2,s3,s4,s5,s6,s7⟩
  | _ => none

def readIpv6 (text : List Char) : Option (Executor.Ipv6 × List Char) :=
  let head := readGroups 8 false text
  if head.1.length = 8 then (ofSegments head.1).map fun ip => (ip,head.2.2)
  else if head.2.1 then none
  else if [':',':'] <+: head.2.2 then
    let tail := readGroups (7 - head.1.length) false (head.2.2.drop 2)
    (ofSegments (head.1 ++ List.replicate (8 - head.1.length - tail.1.length) 0 ++ tail.1)).map fun ip => (ip,tail.2.2)
  else none

/-- `FromStr` of the addresses. -/
def parseIp (text : String) : Option Executor.IpAddr :=
  match readIpv4 text.toList with
  | some (ip,rest) => if rest = [] then some (.v4 ip) else none
  | none => (readIpv6 text.toList).bind fun read => if read.2 = [] then some (.v6 read.1) else none

end Addresses

section Names

inductive AuthMode where
  | localOnly
  | hybrid
  | oidc
  deriving DecidableEq

def AuthMode.parse (raw : String) : Except String AuthMode :=
  let mode := asciiLowercase (trim raw)
  if mode = "" ∨ mode = "local" then .ok .localOnly
  else if mode = "hybrid" then .ok .hybrid
  else if mode = "oidc" then .ok .oidc
  else .error ("invalid auth_mode: " ++ mode.quote ++ " (expected local|hybrid|oidc)")

def AuthMode.asStr : AuthMode → String
  | .localOnly => "local"
  | .hybrid => "hybrid"
  | .oidc => "oidc"

def defaultLocale : String := "zh-CN"

def normalizeLocale (value : String) : Except String String :=
  let name := String.ofList ((asciiLowercase (trim value)).toList.map fun c => if c = '_' then '-' else c)
  if name = "" ∨ name = "zh-cn" ∨ name = "zh" then .ok defaultLocale
  else if name = "en-us" ∨ name = "en" then .ok "en-US"
  else .error ("QDRUST_DEFAULT_LOCALE must be zh-CN or en-US, got " ++ name.quote)

def normalizeBasePath (raw : String) : String :=
  let trimmed := trim raw
  if trimmed = "" ∨ trimmed = "/" then ""
  else
    let path := trimmed.toList.rdropWhile (· = '/')
    String.ofList (if path.head? = some '/' then path else '/' :: path)

end Names

end Qdrust.Server
