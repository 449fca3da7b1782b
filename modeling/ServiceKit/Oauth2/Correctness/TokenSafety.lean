import ServiceKit.Oauth2.Correctness.Acceptance

/-!
# `Oauth2.Correctness.TokenSafety` — what becomes of any token

`getTokenInfo` takes the first value of the audience that the claims name, and does not ask whether there is one: so a
token that is signed, in time and names no audience makes it index out of range, and `GetClientInfo` with it. Every
other token gets an error, or the client of its audience (`parsesSafely_iff`).
-/

namespace ServiceKit
namespace Oauth2

open Lib

variable {σ : Type} {c : ClientCredentials σ} {storage : σ} {now : ℤ} {token : Text}

/-- The audience of a token: the one it names, where tokens are signed; the client it was issued to, where the storage
    is asked. -/
def ClientCredentials.audienceOf (c : ClientCredentials σ) (storage : σ) (token : Text) : List Text :=
  match c.jwtAccessGenerate with
  | some g => ((c.jwt.signed g.signedKey (c.jwt.filter token)).map Claims.audience).getD []
  | none => ((c.tokenStorage.getByAccess storage (c.jwt.filter token)).map fun ti => [ti.clientID]).getD []

/-- The token gets a client or an error, and the client is the one of its audience: its first value, where it has
    several. -/
structure ParsesSafely (c : ClientCredentials σ) (storage : σ) (now : ℤ) (token : Text) : Prop where
  tokenInfo : (∃ ti, c.getTokenInfo storage now token = .ok ti ∧
      (c.audienceOf storage token).head? = some ti.clientID) ∨
    ∃ e, c.getTokenInfo storage now token = .error e ∧ e ≠ .panic
  clientInfo : (∃ clientInfo aud, c.getClientInfo storage now token = .ok clientInfo ∧
      (c.audienceOf storage token).head? = some aud ∧ c.clientStorage aud = some clientInfo) ∨
    ∃ e, c.getClientInfo storage now token = .error e ∧ e ≠ .panic

/-- The token is signed under the key of the server and in time, and its claims name no audience. -/
def NamesNoAudience (c : ClientCredentials σ) (now : ℤ) (token : Text) : Prop :=
  ∃ g cl, c.jwtAccessGenerate = some g ∧ c.jwt.signed g.signedKey (c.jwt.filter token) = some cl ∧ cl.InTime now ∧
    cl.audience = []

/-! ## Token infos -/

/-- What `getTokenInfo` can end with. -/
theorem getTokenInfo_cases :
    (c.getTokenInfo storage now token = .error .panic ∧ NamesNoAudience c now token) ∨
      ¬NamesNoAudience c now token ∧
        ((∃ e, c.getTokenInfo storage now token = .error e ∧ e ≠ .panic) ∨
          ∃ ti, c.getTokenInfo storage now token = .ok ti ∧ (c.audienceOf storage token).head? = some ti.clientID) := by
  cases hg : c.jwtAccessGenerate with
  | some g =>
      cases hparse : c.jwt.parseWithClaims g.signedKey (c.jwt.filter token) now with
      | none =>
          have herror : c.getTokenInfo storage now token =
              .error (.library (c.jwt.parseError g.signedKey (c.jwt.filter token) now)) := by
            simp [ClientCredentials.getTokenInfo, hg, hparse]
          refine Or.inr ⟨?_, Or.inl ⟨_, herror, by simp⟩⟩
          rintro ⟨g', cl, hg', hsigned, htime, -⟩
          cases hg.symm.trans hg'
          have hsome := (c.jwt.parse_iff _ _ now cl).mpr ⟨hsigned, htime⟩
          simp [hparse] at hsome
      | some cl =>
          obtain ⟨hsigned, htime⟩ := (c.jwt.parse_iff _ _ _ _).mp hparse
          cases haud : cl.audience with
          | nil =>
              refine Or.inl ⟨?_, g, cl, hg, hsigned, htime, haud⟩
              simp [ClientCredentials.getTokenInfo, hg, hparse, haud]
          | cons aud rest =>
              refine Or.inr ⟨?_, Or.inr ⟨claimsInfo cl aud (c.jwt.filter token) now, ?_, ?_⟩⟩
              · rintro ⟨g', cl', hg', hsigned', -, hnil⟩
                cases hg.symm.trans hg'
                cases hsigned.symm.trans hsigned'
                simp [haud] at hnil
              · simp [ClientCredentials.getTokenInfo, hg, hparse, haud]
              · simp [ClientCredentials.audienceOf, hg, hsigned, haud, claimsInfo]
  | none =>
      have hnot : ¬NamesNoAudience c now token := by
        rintro ⟨g, cl, hg', -⟩
        simp [hg] at hg'
      refine Or.inr ⟨hnot, ?_⟩
      cases hload : c.manager.loadAccessToken storage (c.jwt.filter token) now with
      | error e => exact Or.inl ⟨.library e, by simp [ClientCredentials.getTokenInfo, hg, hload], by simp⟩
      | ok found =>
          cases found with
          | none => exact Or.inl ⟨.invalidAccessToken, by simp [ClientCredentials.getTokenInfo, hg, hload], by simp⟩
          | some ti =>
              obtain ⟨-, hget, -⟩ := (c.manager.load_iff _ _ _ _).mp hload
              by_cases hlate : ti.accessCreateAt + ti.accessExpiresIn < now
              · exact Or.inl ⟨.expiredAccessToken, by simp [ClientCredentials.getTokenInfo, hg, hload, hlate], by simp⟩
              · refine Or.inr ⟨ti, ?_, ?_⟩
                · simp [ClientCredentials.getTokenInfo, hg, hload, hlate]
                · simp [ClientCredentials.audienceOf, hg, hget]

/-! ## Client infos -/

theorem getClientInfo_of_error {e : Failure} (h : c.getTokenInfo storage now token = .error e) :
    c.getClientInfo storage now token = .error e := by
  simp [ClientCredentials.getClientInfo, h]

/-- A client is looked up under the id that the token info has. -/
theorem getClientInfo_of_ok {ti : TokenInfo} (h : c.getTokenInfo storage now token = .ok ti) :
    (∃ clientInfo, c.getClientInfo storage now token = .ok clientInfo ∧ c.clientStorage ti.clientID = some clientInfo) ∨
      ∃ e, c.getClientInfo storage now token = .error e ∧ e ≠ .panic := by
  cases hclient : c.clientStorage ti.clientID with
  | some clientInfo => exact Or.inl ⟨clientInfo, by simp [ClientCredentials.getClientInfo, h, hclient], by simp⟩
  | none =>
      refine Or.inr ⟨.library (c.clientError ti.clientID), ?_, by simp⟩
      simp [ClientCredentials.getClientInfo, h, hclient]

/-- **When a token is parsed safely.** It is not one that the key signs, in time, and that names no audience. -/
theorem parsesSafely_iff (c : ClientCredentials σ) (storage : σ) (now : ℤ) (token : Text) :
    ParsesSafely c storage now token ↔ ¬NamesNoAudience c now token := by
  rcases @getTokenInfo_cases _ c storage now token with
    ⟨hpanic, hnone⟩ | ⟨hsome, hcases⟩
  · refine iff_of_false ?_ (not_not.mpr hnone)
    rintro ⟨hinfo, -⟩
    simp [hpanic] at hinfo
  · refine iff_of_true ?_ hsome
    rcases hcases with ⟨e, herror, hne⟩ | ⟨ti, hok, haud⟩
    · exact ⟨Or.inr ⟨e, herror, hne⟩, Or.inr ⟨e, getClientInfo_of_error herror, hne⟩⟩
    · refine ⟨Or.inl ⟨ti, hok, haud⟩, ?_⟩
      rcases getClientInfo_of_ok hok with ⟨clientInfo, hclient, hstored⟩ | herror
      · exact Or.inl ⟨clientInfo, ti.clientID, hclient, haud, hstored⟩
      · exact Or.inr herror

/-! ## A token of another issuer -/

/-- What another holder of the key signed: a subject and nothing else. -/
def anonymous : Claims := ⟨[], "job".toList, none, none, none⟩

/-- A parser that knows one token that was signed under `secret`. -/
def oneSigned : Jwt where
  filter := stripBearer
  signed key token := if key = secret ∧ token = "t".toList then some anonymous else none
  parseWithClaims key token now :=
    (if key = secret ∧ token = "t".toList then some anonymous else none).filter (fun cl => cl.InTime now)
  parseError _ _ _ := "token is invalid".toList
  parse_iff key token now cl := by simp [Option.filter_eq_some_iff]

def anonymousServer : ClientCredentials ((Text → Option TokenInfo) × (Text → Option TokenInfo)) :=
  { jwtServer with jwt := oneSigned }

/-- **The token of `anonymous`** makes both functions panic. -/
theorem not_parsesSafely :
    ¬∀ (σ : Type) (c : ClientCredentials σ) (storage : σ) (now : ℤ) (token : Text), ParsesSafely c storage now token := by
  intro h
  have hpanic : anonymousServer.getTokenInfo mapStore.empty 0 "t".toList = .error .panic := by rfl
  rcases (h _ anonymousServer mapStore.empty 0 "t".toList).tokenInfo with ⟨ti, hok, -⟩ | ⟨e, herror, hne⟩
  · cases hpanic.symm.trans hok
  · exact hne (Except.error.inj (herror.symm.trans hpanic))

end Oauth2
end ServiceKit
