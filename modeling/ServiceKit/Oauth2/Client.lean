import Mathlib.Data.Int.Notation
import ServiceKit.Lib.Text
import ServiceKit.Lib.Run

/-!
# `Oauth2.Client` — a server of client credentials

`client.go`: tokens are issued and refreshed by the manager of the oauth2 library and kept in `TokenStorage`;
`getTokenInfo` judges a token, by its signature where `JWTAccessGenerate` is set and by the storage elsewhere. The
libraries are parameters, with what they document as laws: a token storage (`TokenStore`), the manager's
`LoadAccessToken` (`Manager`), the parser of signed tokens (`Jwt`). Times and durations are in nanoseconds.
-/

namespace ServiceKit
namespace Oauth2

open Lib

/-- The library's `TokenInfo`. -/
structure TokenInfo where
  clientID : Text
  userID : Text
  access : Text
  accessCreateAt : ℤ
  accessExpiresIn : ℤ
  refresh : Text
  refreshCreateAt : ℤ
  refreshExpiresIn : ℤ
deriving DecidableEq

/-- The lifetime is over; 0 is no lifetime at all. -/
def TokenInfo.accessExpired (ti : TokenInfo) (now : ℤ) : Prop :=
  ti.accessExpiresIn ≠ 0 ∧ ti.accessCreateAt + ti.accessExpiresIn < now

def TokenInfo.refreshExpired (ti : TokenInfo) (now : ℤ) : Prop :=
  ti.refresh ≠ [] ∧ ti.refreshExpiresIn ≠ 0 ∧ ti.refreshCreateAt + ti.refreshExpiresIn < now

instance (ti : TokenInfo) (now : ℤ) : Decidable (ti.accessExpired now) := inferInstanceAs (Decidable (_ ∧ _))

instance (ti : TokenInfo) (now : ℤ) : Decidable (ti.refreshExpired now) := inferInstanceAs (Decidable (_ ∧ _))

/-! ## Libraries -/

/-- `oauth2.TokenStore`, as far as access tokens are looked up. -/
structure TokenStore (σ : Type) where
  empty : σ
  create : TokenInfo → σ → σ
  removeByAccess : Text → σ → σ
  removeByRefresh : Text → σ → σ
  getByAccess : σ → Text → Option TokenInfo
  getByRefresh : σ → Text → Option TokenInfo
  getByAccess_empty : ∀ a, getByAccess empty a = none
  getByAccess_create : ∀ ti s a, getByAccess (create ti s) a = if a = ti.access then some ti else getByAccess s a
  getByAccess_removeByAccess : ∀ b s a, getByAccess (removeByAccess b s) a = if a = b then none else getByAccess s a
  /-- Removal by a refresh token may take the access token with it. -/
  of_getByAccess_removeByRefresh : ∀ r s a ti, getByAccess (removeByRefresh r s) a = some ti → getByAccess s a = some ti

/-- `manage.Manager`, as far as it looks access tokens up. -/
structure Manager {σ : Type} (store : TokenStore σ) where
  loadAccessToken : σ → Text → ℤ → Except Text (Option TokenInfo)
  load_iff : ∀ s token now ti, loadAccessToken s token now = .ok (some ti) ↔
    token ≠ [] ∧ store.getByAccess s token = some ti ∧ ti.access = token ∧ ¬ti.refreshExpired now ∧
      ¬ti.accessExpired now

def second : ℤ := 1000000000

/-- `generates.JWTAccessClaims`; its times are whole seconds. -/
structure Claims where
  audience : List Text
  subject : Text
  issuedAt : Option ℤ
  expiresAt : Option ℤ
  notBefore : Option ℤ
deriving DecidableEq

/-- The claims hold at a time: before `exp`, and not before `nbf`. -/
def Claims.InTime (cl : Claims) (now : ℤ) : Prop :=
  (∀ e ∈ cl.expiresAt, now < e * second) ∧ ∀ n ∈ cl.notBefore, n * second ≤ now

instance (cl : Claims) (now : ℤ) : Decidable (cl.InTime now) := inferInstanceAs (Decidable (_ ∧ _))

/-- The package `jwt`: `AuthorizationHeaderExtractor.Filter`, and `ParseWithClaims` with a key that is bytes. -/
structure Jwt where
  filter : Text → Text
  /-- The claims of what is signed under the key by an HMAC method, whoever did so. -/
  signed : List UInt8 → Text → Option Claims
  parseWithClaims : List UInt8 → Text → ℤ → Option Claims
  /-- The error of `ParseWithClaims` where it returns no claims. -/
  parseError : List UInt8 → Text → ℤ → Text
  parse_iff : ∀ key token now cl, parseWithClaims key token now = some cl ↔ signed key token = some cl ∧ cl.InTime now

/-- The families of signing methods. -/
inductive SigningMethod where
  | hmac
  | rsa
  | rsaPSS
  | ecdsa
  | ed25519
deriving DecidableEq

structure JWTAccessGenerate where
  signedKey : List UInt8
  signedMethod : SigningMethod

/-! ## `client.go` -/

structure ClientInfo where
  id : Text
  userID : Text
deriving DecidableEq

structure ClientCredentials (σ : Type) where
  tokenStorage : TokenStore σ
  manager : Manager tokenStorage
  clientStorage : Text → Option ClientInfo
  /-- The error of `GetByID` where it finds no client. -/
  clientError : Text → Text
  jwt : Jwt
  jwtAccessGenerate : Option JWTAccessGenerate

inductive Failure where
  | invalidAccessToken
  | expiredAccessToken
  /-- What a library answers. -/
  | library (error : Text)
  /-- An index out of range. -/
  | panic
deriving DecidableEq

/-- The token info that is made from the claims of a token. Durations are unbounded here, where `Time.Sub` stops at
    the largest `Duration`. -/
def claimsInfo (claims : Claims) (aud token : Text) (now : ℤ) : TokenInfo :=
  let issuedAt := claims.issuedAt.getD (now / second)
  { clientID := aud
    userID := claims.subject
    access := token
    accessCreateAt := issuedAt * second
    accessExpiresIn :=
      match claims.expiresAt with
      | some expiresAt => (expiresAt - issuedAt) * second
      | none => 0
    refresh := []
    refreshCreateAt := 0
    refreshExpiresIn := 0 }

variable {σ : Type}

def ClientCredentials.getTokenInfo (c : ClientCredentials σ) (s : σ) (now : ℤ) (token : Text) :
    Except Failure TokenInfo :=
  let token := c.jwt.filter token
  match c.jwtAccessGenerate with
  | some g =>
      match c.jwt.parseWithClaims g.signedKey token now with
      | none => .error (.library (c.jwt.parseError g.signedKey token now))
      | some claims =>
          match claims.audience with
          | [] => .error .panic
          | aud :: _ => .ok (claimsInfo claims aud token now)
  | none =>
      match c.manager.loadAccessToken s token now with
      | .error e => .error (.library e)
      | .ok none => .error .invalidAccessToken
      | .ok (some tokenInfo) =>
          if tokenInfo.accessCreateAt + tokenInfo.accessExpiresIn < now then .error .expiredAccessToken
          else .ok tokenInfo

def ClientCredentials.getClientInfo (c : ClientCredentials σ) (s : σ) (now : ℤ) (token : Text) :
    Except Failure ClientInfo :=
  match c.getTokenInfo s now token with
  | .error e => .error e
  | .ok tokenInfo =>
      match c.clientStorage tokenInfo.clientID with
      | some clientInfo => .ok clientInfo
      | none => .error (.library (c.clientError tokenInfo.clientID))

/-! ## Runs of a server -/

/-- The server, with all that it issued. -/
structure State (σ : Type) where
  storage : σ
  issued : List TokenInfo
  now : ℤ

def ClientCredentials.start (c : ClientCredentials σ) (now : ℤ) : State σ := ⟨c.tokenStorage.empty, [], now⟩

/-- The last second that a signed token names. -/
def TokenInfo.expirySecond (ti : TokenInfo) : ℤ := (ti.accessCreateAt + ti.accessExpiresIn) / second

/-- The claims that `JWTAccessGenerate.Token` signs. -/
def TokenInfo.claims (ti : TokenInfo) : Claims := ⟨[ti.clientID], ti.userID, none, some ti.expirySecond, none⟩

/-- The access token of `ti` is one that the server generates. -/
structure Generated (c : ClientCredentials σ) (ti : TokenInfo) : Prop where
  ne_nil : ti.access ≠ []
  known : (c.clientStorage ti.clientID).isSome
  signed : ∀ g, c.jwtAccessGenerate = some g → g.signedMethod = .hmac → c.jwt.signed g.signedKey ti.access = some ti.claims
  /-- Bytes are no key for the other methods. -/
  unsigned : ∀ g, c.jwtAccessGenerate = some g → g.signedMethod ≠ .hmac → c.jwt.signed g.signedKey ti.access = none

inductive Op where
  | issue (ti : TokenInfo)
  | refresh (old ti : TokenInfo)
  | removeByAccess (access : Text)
  | removeByRefresh (refresh : Text)
  | pass (now : ℤ)
  /-- `GetClientInfo` is asked about a token. -/
  | check (token : Text)

inductive Step (c : ClientCredentials σ) : State σ → Op → State σ → Prop where
  | issue {s ti} : Generated c ti → ti.accessCreateAt = s.now →
      Step c s (.issue ti) { s with storage := c.tokenStorage.create ti s.storage, issued := s.issued ++ [ti] }
  /-- The new token is created, and the old one removed. -/
  | refresh {s old ti} : c.tokenStorage.getByRefresh s.storage old.refresh = some old → Generated c ti →
      ti.clientID = old.clientID → ti.accessCreateAt = s.now →
      Step c s (.refresh old ti)
        { s with
          storage := c.tokenStorage.removeByAccess old.access (c.tokenStorage.create ti s.storage)
          issued := s.issued ++ [ti] }
  | removeByAccess {s access} :
      Step c s (.removeByAccess access) { s with storage := c.tokenStorage.removeByAccess access s.storage }
  | removeByRefresh {s refresh} :
      Step c s (.removeByRefresh refresh) { s with storage := c.tokenStorage.removeByRefresh refresh s.storage }
  | pass {s now} : s.now ≤ now → Step c s (.pass now) { s with now := now }
  | check {s token} : Step c s (.check token) s

end Oauth2
end ServiceKit
