import Qdrust.Library.Text

/-! The check of a one-time code. `code` stands for the arithmetic of the code itself. -/
namespace Qdrust.Account.Totp
open Library

def digits : Nat := 6

def period : Int := 30

def skewSteps : List Int := [-1,0,1]

/-- The code that was typed, without the blanks and dashes an app shows. -/
def submittedCode (submitted : String) : String :=
  String.ofList (submitted.toList.filter fun ch => !Text.whiteSpace ch && ch ≠ '-')

/-- Whether some step gives the code, `none` where one has no code. -/
def verifySteps (code : String → Int → Option String) (secret submitted : String) (now : Int) : List Int → Option Bool
  | [] => some false
  | step :: rest =>
    match code secret (max (now + step * period) 0) with
    | none => none
    | some expected => if expected = submitted then some true else verifySteps code secret submitted now rest

/-- `none` is an error, of a code that is none among them. -/
def verify (code : String → Int → Option String) (secret submitted : String) (now : Int) : Option Bool :=
  let submitted := submittedCode submitted
  if submitted = "" then none
  else if submitted.utf8ByteSize ≠ digits || !submitted.toList.all Char.isDigit then none
  else verifySteps code secret submitted now skewSteps

end Qdrust.Account.Totp
