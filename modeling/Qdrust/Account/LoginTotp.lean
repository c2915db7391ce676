import Qdrust.Account.Model

/-! The second step of a login. Reading the challenge, verifying the code, counting the
attempt and deleting the challenge are separate statements. -/
namespace Qdrust.Account
open Library

def totpMaxAttempts : Int := 5

structure IssuedSession where
  sessionToken : String
  csrfToken : String
  expiresAt : Int
deriving DecidableEq

/-- How a request is served: the configuration, the hash of tokens and the tokens that
`new_token` gives it. -/
structure Serving where
  localLogin : Bool
  tokenHash : String → String
  sessionTtl : Nat
  sessionToken : String
  csrfToken : String

def createSession (serving : Serving) (userId : Int) : Calls IssuedSession := do
  if serving.sessionTtl = 0 then .failed
  else
    match ← ask (.credentialsById userId) with
    | none => .failed
    | some credentials =>
      if credentials.user.disabled then .failed
      else
        let now ← ask .clock
        let expiresAt := now + serving.sessionTtl
        if 9223372036854775807 < expiresAt then .failed
        else
          let _ ← ask (.insertSession (serving.tokenHash serving.sessionToken)
            ⟨userId,serving.tokenHash serving.csrfToken,credentials.sessionVersion,expiresAt⟩)
          return ⟨serving.sessionToken,serving.csrfToken,expiresAt⟩

structure TotpLogin where
  challenge : String
  code : String

abbrev LoginReply := Except ApiError IssuedSession

def invalidTotpCode : ApiError := .unauthorized "invalid_totp_code" "That code is not valid; try the next one"

/-- The number of attempts after this one, `0` for a challenge that is gone. -/
def recordTotpAttempt (challengeId : Int) : Calls Int := do
  let _ ← ask (.countTotpAttempt challengeId)
  return (← ask (.totpAttempts challengeId)).getD 0

def loginTotp (serving : Serving) (input : TotpLogin) : Calls LoginReply := do
  if !serving.localLogin then
    return .error (.forbidden "local_login_disabled" "Local username/password login is disabled on this deployment")
  else
    match ← ask (.totpChallengeByHash (serving.tokenHash input.challenge)) with
    | none => return .error invalidTotpCode
    | some challenge =>
      let now ← ask .clock
      if challenge.expiresAt ≤ now then
        let _ ← ask (.deleteTotpChallenge challenge.id)
        return .error (.unauthorized "totp_challenge_expired" "This login attempt expired; sign in again")
      else
        match (← ask (.userTotp challenge.userId)).bind UserTotp.secret with
        | none => return .error invalidTotpCode
        | some secret =>
          let now ← ask .clock
          match ← ask (.verifyTotp secret input.code (max now 0)) with
          | none => .failed
          | some false =>
            let attempts ← recordTotpAttempt challenge.id
            if attempts ≥ totpMaxAttempts then
              let _ ← ask (.deleteTotpChallenge challenge.id)
              let _ ← ask (.recordAudit "auth.totp_challenge_burned")
              return .error invalidTotpCode
            else return .error invalidTotpCode
          | some true =>
            let _ ← ask (.deleteTotpChallenge challenge.id)
            match ← ask (.getUser challenge.userId) with
            | none => return .error invalidTotpCode
            | some user =>
              if user.disabled then return .error (.unauthorized "account_disabled" "This account is disabled")
              else
                let _ ← ask (.recordAudit "auth.login")
                return .ok (← createSession serving user.id)

section Equations

variable {serving : Serving} {input : TotpLogin}

def afterAttempts (id : Int) (attempts : Option Int) : Calls LoginReply :=
  if attempts.getD 0 ≥ totpMaxAttempts then .call (.deleteTotpChallenge id) (Routine.answered fun _ =>
    .call (.recordAudit "auth.totp_challenge_burned") (Routine.answered fun _ => .done (.error invalidTotpCode)))
  else .done (.error invalidTotpCode)

/-- The end of a session's creation, after the clock is read. -/
def afterSessionClock (serving : Serving) (userId sessionVersion now : Int) : Calls LoginReply :=
  if 9223372036854775807 < now + serving.sessionTtl then .failed
  else .call (.insertSession (serving.tokenHash serving.sessionToken)
      ⟨userId,serving.tokenHash serving.csrfToken,sessionVersion,now + serving.sessionTtl⟩)
    (Routine.answered fun _ => .done (.ok ⟨serving.sessionToken,serving.csrfToken,now + serving.sessionTtl⟩))

def afterCredentials (serving : Serving) (userId : Int) : Option UserCredentials → Calls LoginReply
  | none => .failed
  | some credentials =>
    if credentials.user.disabled then .failed
    else .call .clock (Routine.answered (afterSessionClock serving userId credentials.sessionVersion))

def sessionCalls (serving : Serving) (userId : Int) : Calls LoginReply :=
  if serving.sessionTtl = 0 then .failed
  else .call (.credentialsById userId) (Routine.answered (afterCredentials serving userId))

def afterUser (serving : Serving) : Option User → Calls LoginReply
  | none => .done (.error invalidTotpCode)
  | some user =>
    if user.disabled then .done (.error (.unauthorized "account_disabled" "This account is disabled"))
    else .call (.recordAudit "auth.login") (Routine.answered fun _ => sessionCalls serving user.id)

def afterVerify (serving : Serving) (challenge : TotpChallenge) : Option Bool → Calls LoginReply
  | none => .failed
  | some false => .call (.countTotpAttempt challenge.id) (Routine.answered fun _ =>
      .call (.totpAttempts challenge.id) (Routine.answered (afterAttempts challenge.id)))
  | some true => .call (.deleteTotpChallenge challenge.id) (Routine.answered fun _ =>
      .call (.getUser challenge.userId) (Routine.answered (afterUser serving)))

def afterTotp (serving : Serving) (code : String) (challenge : TotpChallenge) (totp : Option UserTotp) : Calls LoginReply :=
  match totp.bind UserTotp.secret with
  | none => .done (.error invalidTotpCode)
  | some secret => .call .clock (Routine.answered fun now =>
      .call (.verifyTotp secret code (max now 0)) (Routine.answered (afterVerify serving challenge)))

def afterClock (serving : Serving) (code : String) (challenge : TotpChallenge) (now : Int) : Calls LoginReply :=
  if challenge.expiresAt ≤ now then .call (.deleteTotpChallenge challenge.id) (Routine.answered fun _ =>
    .done (.error (.unauthorized "totp_challenge_expired" "This login attempt expired; sign in again")))
  else .call (.userTotp challenge.userId) (Routine.answered (afterTotp serving code challenge))

def afterChallenge (serving : Serving) (code : String) : Option TotpChallenge → Calls LoginReply
  | none => .done (.error invalidTotpCode)
  | some challenge => .call .clock (Routine.answered (afterClock serving code challenge))

theorem createSession_calls (userId : Int) :
    (do return .ok (← createSession serving userId) : Calls LoginReply) = sessionCalls serving userId := by
  unfold createSession sessionCalls
  split
  · rfl
  simp only [Routine.ask_bind,Routine.call_bind,Routine.answered_bind]
  refine Routine.call_congr fun credentials => ?_
  cases credentials with
  | none => rfl
  | some credentials =>
    simp only [afterCredentials]
    split
    · rfl
    simp only [Routine.call_bind,Routine.answered_bind]
    refine Routine.call_congr fun now => ?_
    simp only [afterSessionClock]
    split
    · rfl
    · simp only [Routine.call_bind,Routine.answered_bind,Routine.pure_eq,Routine.done_bind]

/-- A login as the calls it makes. -/
theorem loginTotp_calls (allowed : serving.localLogin = true) :
    loginTotp serving input = .call (.totpChallengeByHash (serving.tokenHash input.challenge))
      (Routine.answered (afterChallenge serving input.code)) := by
  simp only [loginTotp,allowed,Bool.not_true,Bool.false_eq_true,if_false,Routine.ask_bind]
  refine Routine.call_congr fun challenge => ?_
  cases challenge with
  | none => rfl
  | some challenge =>
    refine Routine.call_congr fun now => ?_
    simp only [afterClock]
    split
    · rfl
    refine Routine.call_congr fun totp => ?_
    simp only [afterTotp]
    cases totp.bind UserTotp.secret with
    | none => rfl
    | some secret =>
      refine Routine.call_congr fun now => Routine.call_congr fun valid => ?_
      rcases valid with _ | _ | _
      · rfl
      · simp only [recordTotpAttempt,Routine.ask_bind,Routine.call_bind,Routine.answered_bind,Routine.pure_eq,
          Routine.done_bind,afterVerify]
        exact Routine.call_congr fun _ => Routine.call_congr fun _ => rfl
      · refine Routine.call_congr fun _ => Routine.call_congr fun user => ?_
        cases user with
        | none => rfl
        | some user =>
          simp only [afterUser]
          split
          · rfl
          · exact Routine.call_congr fun _ => createSession_calls user.id

end Equations
end Qdrust.Account
