import SupportPilot.Domain

/-! # Refresh sessions

The rows of `refresh_sessions` and the parts of `packages/security/sessions.py`
and `packages/security/tokens.py` that run between two statements. -/

namespace SupportPilot.Security

open Lib

/-- `UUID(…)` on a string, and `sha256(….encode("utf-8")).hexdigest()`. -/
class TokenCodec where
  parseUuid : Text → Option UUID
  hashRefreshSecret : Text → Text

structure RefreshTokenParts where
  sessionId : UUID
  secret : Text

def parseRefreshToken [TokenCodec] (rawToken : Text) : Except PyError RefreshTokenParts :=
  match rawToken.dropWhile (· ≠ '.') with
  | [] => .error (.valueError "invalid refresh token")
  | _ :: secret =>
    match TokenCodec.parseUuid (rawToken.takeWhile (· ≠ '.')) with
    | none => .error (.valueError "invalid refresh token")
    | some sessionId =>
      if secret.length < 32 then .error (.valueError "invalid refresh token")
      else .ok ⟨sessionId, secret⟩

structure RefreshSession where
  id : UUID
  userId : UUID
  familyId : UUID
  tokenHash : Text
  userAgent : Option Text
  ipAddress : Option Text
  createdAt : Nat
  expiresAt : Nat
  usedAt : Option Nat
  revokedAt : Option Nat
  replacedById : Option UUID
  deriving DecidableEq

instance : Row RefreshSession UUID := ⟨RefreshSession.id⟩

/-- What a request tells about the client. -/
structure ClientMetadata where
  userAgent : Option Text
  ipAddress : Option Text

/-- `(user_agent or "")[:512] or None`. -/
def shortUserAgent (userAgent : Option Text) : Option Text :=
  let short := (userAgent.getD []).take 512
  if short = [] then none else some short

/-- The values that `issue_session` draws: a new identifier and a new secret. -/
structure Drawn where
  id : UUID
  secret : Text

/-- The row of `issue_session`. -/
def issueSession [TokenCodec] (drawn : Drawn) (userId familyId : UUID) (refreshTokenDays : Nat)
    (client : ClientMetadata) (now : Nat) : RefreshSession where
  id := drawn.id
  userId := userId
  familyId := familyId
  tokenHash := TokenCodec.hashRefreshSecret drawn.secret
  userAgent := shortUserAgent client.userAgent
  ipAddress := client.ipAddress
  createdAt := now
  expiresAt := now + seconds (refreshTokenDays * 86400)
  usedAt := none
  revokedAt := none
  replacedById := none

/-- What `rotate_session` does with a row whose secret matches. -/
inductive Verdict where
  | reuse | refused | accepted
  deriving DecidableEq

namespace RefreshSession

def verdict (current : RefreshSession) (now : Nat) : Verdict :=
  if current.usedAt ≠ none ∨ current.revokedAt ≠ none then .reuse
  else if current.expiresAt ≤ now then .refused
  else .accepted

/-- The attributes that a successful rotation sets. -/
def rotate (current : RefreshSession) (now : Nat) (replacementId : UUID) : RefreshSession :=
  { current with usedAt := some now, revokedAt := some now, replacedById := some replacementId }

/-- `SET revoked_at = now`. -/
def revoke (row : RefreshSession) (now : Nat) : RefreshSession :=
  { row with revokedAt := some now }

/-- `current.revoked_at or utc_now()`. -/
def logout (current : RefreshSession) (now : Nat) : RefreshSession :=
  current.revoke (current.revokedAt.getD now)

/-- Neither used nor revoked. -/
structure Live (row : RefreshSession) : Prop where
  unused : row.usedAt = none
  unrevoked : row.revokedAt = none

instance (row : RefreshSession) : Decidable row.Live :=
  decidable_of_iff (row.usedAt = none ∧ row.revokedAt = none)
    ⟨fun ⟨unused, unrevoked⟩ => ⟨unused, unrevoked⟩, fun ⟨unused, unrevoked⟩ => ⟨unused, unrevoked⟩⟩

theorem live_of_accepted {current : RefreshSession} {now : Nat}
    (accepted : current.verdict now = .accepted) : current.Live := by
  unfold verdict at accepted
  split at accepted
  · cases accepted
  next neither =>
    rw [not_or, not_not, not_not] at neither
    exact ⟨neither.1, neither.2⟩

/-- Rows as `issue_session` makes them. -/
structure Issued (row : RefreshSession) : Prop extends Live row where
  unreplaced : row.replacedById = none

theorem issued_issueSession [TokenCodec] (drawn : Drawn) (userId familyId : UUID)
    (refreshTokenDays : Nat) (client : ClientMetadata) (now : Nat) :
    (issueSession drawn userId familyId refreshTokenDays client now).Issued :=
  ⟨⟨rfl, rfl⟩, rfl⟩

end RefreshSession

/-- The two errors of `rotate_session`. -/
def invalidSession : PyError := .authentication "session is invalid or expired"

def reuseDetected : PyError := .authentication "session reuse detected; please sign in again"

end SupportPilot.Security
