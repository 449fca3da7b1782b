import ServiceKit.Oauth2.Client

/-!
# `Oauth2.Correctness.Acceptance` — which tokens a server accepts

A token is live when the server issued it, its lifetime is not over and the storage still has it. What the storage
has, the server issued (`Inv`, kept by every step), so the storage path goes wrong only where the lifetime is 0 or the
refresh token is over first. The path of signed tokens never asks the storage: it takes what the key signs until the
second that it names. `right_iff` says of a state and a token when both paths give the verdict that they should, and
`acceptance_iff` says it of whole runs.
-/

namespace ServiceKit
namespace Oauth2

open Lib

variable {σ : Type} {c : ClientCredentials σ} {s t : State σ} {token : Text} {ti : TokenInfo}

/-- The server issued the token, the storage has it, and its lifetime is not over. -/
def Live (c : ClientCredentials σ) (s : State σ) (token : Text) : Prop :=
  ∃ ti ∈ s.issued, ti.access = token ∧ c.tokenStorage.getByAccess s.storage token = some ti ∧ ¬ti.accessExpired s.now

def Accepts (c : ClientCredentials σ) (s : State σ) (token : Text) : Prop :=
  ∃ clientInfo, c.getClientInfo s.storage s.now token = .ok clientInfo

/-- The same server, with tokens judged by the storage. -/
def ClientCredentials.byStorage (c : ClientCredentials σ) : ClientCredentials σ := { c with jwtAccessGenerate := none }

/-- The token is accepted when it is live, and both paths agree on it. -/
def Right (c : ClientCredentials σ) (s : State σ) (token : Text) : Prop :=
  (Accepts c s token ↔ Live c s (c.jwt.filter token)) ∧ (Accepts c s token ↔ Accepts c.byStorage s token)

/-! ## What the storage has -/

/-- The storage has only what was issued, and what was issued is what the server generates. -/
structure Inv (c : ClientCredentials σ) (s : State σ) : Prop where
  generated : ∀ ti ∈ s.issued, Generated c ti
  stored : ∀ a ti, c.tokenStorage.getByAccess s.storage a = some ti → ti ∈ s.issued ∧ ti.access = a

theorem inv_start (now : ℤ) : Inv c (c.start now) := by
  constructor
  · intro ti hti
    simp [ClientCredentials.start] at hti
  · intro a ti hget
    have hnone : c.tokenStorage.getByAccess c.tokenStorage.empty a = none := c.tokenStorage.getByAccess_empty a
    simp [ClientCredentials.start, hnone] at hget

/-- A new token goes into the storage. -/
theorem Inv.create (h : Inv c s) (hti : Generated c ti) :
    Inv c { s with storage := c.tokenStorage.create ti s.storage, issued := s.issued ++ [ti] } := by
  constructor
  · intro ti' hti'
    rcases List.mem_append.mp hti' with hold | hnew
    · exact h.generated ti' hold
    · rw [List.mem_singleton.mp hnew]
      exact hti
  · intro a ti' hget
    have hcreate := c.tokenStorage.getByAccess_create ti s.storage a
    by_cases ha : a = ti.access
    · rw [if_pos ha] at hcreate
      have hsame : ti = ti' := Option.some.inj (hcreate.symm.trans hget)
      subst hsame
      simp [ha]
    · rw [if_neg ha] at hcreate
      obtain ⟨hmem, hacc⟩ := h.stored a ti' (hcreate.symm.trans hget)
      exact ⟨List.mem_append_left _ hmem, hacc⟩

/-- A storage that has less. -/
theorem Inv.of_less (h : Inv c s) {storage : σ}
    (hless : ∀ a ti, c.tokenStorage.getByAccess storage a = some ti → c.tokenStorage.getByAccess s.storage a = some ti) :
    Inv c { s with storage := storage } := by
  constructor
  · exact h.generated
  · intro a ti hget
    exact h.stored a ti (hless a ti hget)

theorem of_getByAccess_removeByAccess {b a : Text} {storage : σ}
    (h : c.tokenStorage.getByAccess (c.tokenStorage.removeByAccess b storage) a = some ti) :
    c.tokenStorage.getByAccess storage a = some ti := by
  rw [c.tokenStorage.getByAccess_removeByAccess] at h
  by_cases hab : a = b
  · simp [hab] at h
  · simpa [hab] using h

theorem inv_step {op : Op} (h : Inv c s) (hstep : Step c s op t) : Inv c t := by
  cases hstep with
  | issue hgen _ => exact h.create hgen
  | refresh _ hgen _ _ => exact (h.create hgen).of_less (fun a ti => of_getByAccess_removeByAccess)
  | removeByAccess => exact h.of_less (fun a ti => of_getByAccess_removeByAccess)
  | removeByRefresh =>
      apply h.of_less
      intro a ti
      exact c.tokenStorage.of_getByAccess_removeByRefresh _ _ a ti
  | pass _ => exact ⟨h.generated, h.stored⟩
  | check => exact h

theorem inv_run {now : ℤ} {ops : List Op} (h : Run (Step c) (c.start now) ops s) : Inv c s :=
  h.preserves (inv_start now) (fun _ _ _ hs hstep => inv_step hs hstep)

/-- Live is what the storage has, and is not over. -/
theorem Inv.live_iff (h : Inv c s) :
    Live c s token ↔ ∃ ti, c.tokenStorage.getByAccess s.storage token = some ti ∧ ¬ti.accessExpired s.now := by
  constructor
  · rintro ⟨ti, -, -, hget, hexp⟩
    exact ⟨ti, hget, hexp⟩
  · rintro ⟨ti, hget, hexp⟩
    obtain ⟨hmem, hacc⟩ := h.stored token ti hget
    exact ⟨ti, hmem, hacc, hget, hexp⟩

/-! ## The path of the storage -/

theorem getClientInfo_ok_iff {clientInfo : ClientInfo} (s : σ) (now : ℤ) :
    c.getClientInfo s now token = .ok clientInfo ↔
      ∃ ti, c.getTokenInfo s now token = .ok ti ∧ c.clientStorage ti.clientID = some clientInfo := by
  rw [ClientCredentials.getClientInfo]
  cases hinfo : c.getTokenInfo s now token with
  | error e => simp
  | ok ti =>
      cases hclient : c.clientStorage ti.clientID with
      | none => simp [hclient]
      | some ci => simp [hclient]

theorem accepts_iff :
    Accepts c s token ↔
      ∃ ti, c.getTokenInfo s.storage s.now token = .ok ti ∧ (c.clientStorage ti.clientID).isSome = true := by
  simp only [Accepts, getClientInfo_ok_iff, Option.isSome_iff_exists]
  constructor
  · rintro ⟨clientInfo, ti, hinfo, hclient⟩
    exact ⟨ti, hinfo, clientInfo, hclient⟩
  · rintro ⟨ti, hinfo, clientInfo, hclient⟩
    exact ⟨clientInfo, ti, hinfo, hclient⟩

theorem getTokenInfo_byStorage_iff {storage : σ} {now : ℤ} :
    c.byStorage.getTokenInfo storage now token = .ok ti ↔
      c.manager.loadAccessToken storage (c.jwt.filter token) now = .ok (some ti) ∧
        now ≤ ti.accessCreateAt + ti.accessExpiresIn := by
  rw [ClientCredentials.getTokenInfo, ClientCredentials.byStorage]
  cases hload : c.manager.loadAccessToken storage (c.jwt.filter token) now with
  | error e => simp
  | ok found =>
      cases found with
      | none => simp
      | some ti' =>
          by_cases hlate : ti'.accessCreateAt + ti'.accessExpiresIn < now
          · have hne : ti' = ti → ¬now ≤ ti.accessCreateAt + ti.accessExpiresIn := by
              intro hti
              rw [← hti]
              omega
            simpa [hlate] using hne
          · have hle : ti' = ti → now ≤ ti.accessCreateAt + ti.accessExpiresIn := by
              intro hti
              rw [← hti]
              omega
            simpa [hlate] using hle

/-- **What the storage path accepts.** -/
theorem Inv.accepts_byStorage_iff (h : Inv c s) :
    Accepts c.byStorage s token ↔
      ∃ ti, c.tokenStorage.getByAccess s.storage (c.jwt.filter token) = some ti ∧ ¬ti.accessExpired s.now ∧
        ¬ti.refreshExpired s.now ∧ s.now ≤ ti.accessCreateAt + ti.accessExpiresIn := by
  rw [accepts_iff]
  simp only [getTokenInfo_byStorage_iff, c.manager.load_iff]
  constructor
  · rintro ⟨ti, ⟨⟨-, hget, -, hrefresh, haccess⟩, htime⟩, -⟩
    exact ⟨ti, hget, haccess, hrefresh, htime⟩
  · rintro ⟨ti, hget, haccess, hrefresh, htime⟩
    obtain ⟨hmem, hacc⟩ := h.stored _ ti hget
    have hgen := h.generated ti hmem
    have hne : c.jwt.filter token ≠ [] := by
      rw [← hacc]
      exact hgen.ne_nil
    exact ⟨ti, ⟨⟨hne, hget, hacc, hrefresh, haccess⟩, htime⟩, hgen.known⟩

/-- Where the storage path is right: a live token has a lifetime, or was issued at this instant; and its refresh token
    is not over. -/
def StorageMeets (c : ClientCredentials σ) (s : State σ) (token : Text) : Prop :=
  ∀ ti, c.tokenStorage.getByAccess s.storage token = some ti → ¬ti.accessExpired s.now →
    (ti.accessExpiresIn = 0 → s.now ≤ ti.accessCreateAt) ∧ ¬ti.refreshExpired s.now

theorem Inv.storage_right_iff (h : Inv c s) :
    (Accepts c.byStorage s token ↔ Live c s (c.jwt.filter token)) ↔ StorageMeets c s (c.jwt.filter token) := by
  rw [h.accepts_byStorage_iff, h.live_iff]
  constructor
  · intro hright ti hget haccess
    obtain ⟨ti', hget', -, hrefresh, htime⟩ := hright.mpr ⟨ti, hget, haccess⟩
    have hsame : ti' = ti := Option.some.inj (hget'.symm.trans hget)
    subst hsame
    refine ⟨?_, hrefresh⟩
    intro hzero
    omega
  · intro hmeets
    constructor
    · rintro ⟨ti, hget, haccess, -, -⟩
      exact ⟨ti, hget, haccess⟩
    · rintro ⟨ti, hget, haccess⟩
      obtain ⟨hzero, hrefresh⟩ := hmeets ti hget haccess
      refine ⟨ti, hget, haccess, hrefresh, ?_⟩
      by_cases hlife : ti.accessExpiresIn = 0
      · have hnow := hzero hlife
        omega
      · have hnot : ¬ti.accessCreateAt + ti.accessExpiresIn < s.now := fun hlt => haccess ⟨hlife, hlt⟩
        omega

/-! ## The path of signed tokens -/

/-- **What the path of signed tokens accepts.** -/
theorem accepts_signed_iff {g : JWTAccessGenerate} (hg : c.jwtAccessGenerate = some g) :
    Accepts c s token ↔
      ∃ cl aud rest, c.jwt.signed g.signedKey (c.jwt.filter token) = some cl ∧ cl.InTime s.now ∧ cl.audience = aud :: rest ∧
        (c.clientStorage aud).isSome = true := by
  rw [accepts_iff]
  simp only [ClientCredentials.getTokenInfo, hg, ← and_assoc, ← c.jwt.parse_iff]
  cases hparse : c.jwt.parseWithClaims g.signedKey (c.jwt.filter token) s.now with
  | none => simp
  | some claims =>
      cases haud : claims.audience with
      | nil => simp [haud]
      | cons aud rest => simp [haud, claimsInfo]

theorem claims_inTime_iff (now : ℤ) : ti.claims.InTime now ↔ now < ti.expirySecond * second := by
  simp [TokenInfo.claims, Claims.InTime]

/-- A token of the server is accepted until the second that it names, if bytes can be the key at all. -/
theorem Inv.accepts_issued_iff (h : Inv c s) {g : JWTAccessGenerate} (hg : c.jwtAccessGenerate = some g)
    (hti : ti ∈ s.issued) (hacc : ti.access = c.jwt.filter token) :
    Accepts c s token ↔ g.signedMethod = .hmac ∧ s.now < ti.expirySecond * second := by
  have hgen := h.generated ti hti
  rw [accepts_signed_iff hg, ← hacc]
  by_cases hmethod : g.signedMethod = .hmac
  · have hsigned := hgen.signed g hg hmethod
    constructor
    · rintro ⟨cl, aud, rest, hcl, htime, -, -⟩
      have hsame : ti.claims = cl := Option.some.inj (hsigned.symm.trans hcl)
      rw [← hsame, claims_inTime_iff] at htime
      exact ⟨hmethod, htime⟩
    · rintro ⟨-, htime⟩
      exact ⟨ti.claims, ti.clientID, [], hsigned, (claims_inTime_iff s.now).mpr htime, rfl, hgen.known⟩
  · have hunsigned := hgen.unsigned g hg hmethod
    simp [hunsigned, hmethod]

/-- Before the second that it names, a lifetime is not over. -/
theorem not_accessExpired_of_lt {now : ℤ} (h : now < ti.expirySecond * second) : ¬ti.accessExpired now := by
  rintro ⟨-, hlate⟩
  have hle : ti.expirySecond * second ≤ ti.accessCreateAt + ti.accessExpiresIn :=
    Int.ediv_mul_le _ (by decide)
  omega

/-- Where the path of signed tokens is right. -/
structure SignedMeets (c : ClientCredentials σ) (g : JWTAccessGenerate) (s : State σ) (token : Text) : Prop where
  /-- A live token is signed by an HMAC method, and the second that it names is not reached. -/
  live : ∀ ti, c.tokenStorage.getByAccess s.storage token = some ti → ¬ti.accessExpired s.now →
    g.signedMethod = .hmac ∧ s.now < ti.expirySecond * second
  /-- Where the storage has lost a token of the server, that second is reached. -/
  revoked : ∀ ti ∈ s.issued, ti.access = token → c.tokenStorage.getByAccess s.storage token = none →
    g.signedMethod = .hmac → ti.expirySecond * second ≤ s.now
  /-- What others signed under the key is for no client of the server, or not in time. -/
  foreign : (∀ ti ∈ s.issued, ti.access ≠ token) → ∀ cl aud rest, c.jwt.signed g.signedKey token = some cl →
    cl.InTime s.now → cl.audience = aud :: rest → (c.clientStorage aud).isSome = false

theorem Inv.signed_right_iff (h : Inv c s) {g : JWTAccessGenerate} (hg : c.jwtAccessGenerate = some g) :
    (Accepts c s token ↔ Live c s (c.jwt.filter token)) ↔ SignedMeets c g s (c.jwt.filter token) := by
  rw [h.live_iff]
  constructor
  · intro hright
    constructor
    · intro ti hget haccess
      obtain ⟨hmem, hacc⟩ := h.stored _ ti hget
      exact (h.accepts_issued_iff hg hmem hacc).mp (hright.mpr ⟨ti, hget, haccess⟩)
    · intro ti hti hacc hnone hmethod
      by_contra hlt
      have haccepts := (h.accepts_issued_iff hg hti hacc).mpr ⟨hmethod, by omega⟩
      obtain ⟨ti', hget, -⟩ := hright.mp haccepts
      simp [hnone] at hget
    · intro hforeign cl aud rest hcl htime haud
      by_contra hknown
      have haccepts := (accepts_signed_iff hg).mpr ⟨cl, aud, rest, hcl, htime, haud, eq_true_of_ne_false hknown⟩
      obtain ⟨ti, hget, -⟩ := hright.mp haccepts
      obtain ⟨hmem, hacc⟩ := h.stored _ ti hget
      exact hforeign ti hmem hacc
  · intro hmeets
    constructor
    · intro haccepts
      by_cases hissued : ∃ ti ∈ s.issued, ti.access = c.jwt.filter token
      · obtain ⟨ti, hti, hacc⟩ := hissued
        obtain ⟨hmethod, hlt⟩ := (h.accepts_issued_iff hg hti hacc).mp haccepts
        cases hget : c.tokenStorage.getByAccess s.storage (c.jwt.filter token) with
        | none =>
            have hle := hmeets.revoked ti hti hacc hget hmethod
            omega
        | some ti' =>
            -- one string names one second, whichever of its tokens the storage has
            obtain ⟨hmem', hacc'⟩ := h.stored _ ti' hget
            obtain ⟨-, hlt'⟩ := (h.accepts_issued_iff hg hmem' hacc').mp haccepts
            exact ⟨ti', Eq.refl _, not_accessExpired_of_lt hlt'⟩
      · have hforeign : ∀ ti ∈ s.issued, ti.access ≠ c.jwt.filter token := fun ti hti hacc => hissued ⟨ti, hti, hacc⟩
        obtain ⟨cl, aud, rest, hcl, htime, haud, hknown⟩ := (accepts_signed_iff hg).mp haccepts
        have hunknown := hmeets.foreign hforeign cl aud rest hcl htime haud
        simp [hknown] at hunknown
    · rintro ⟨ti, hget, haccess⟩
      obtain ⟨hmem, hacc⟩ := h.stored _ ti hget
      exact (h.accepts_issued_iff hg hmem hacc).mpr (hmeets.live ti hget haccess)

/-! ## Both paths -/

/-- Where a token gets the verdict that it should, on both paths. -/
def Meets (c : ClientCredentials σ) (s : State σ) (token : Text) : Prop :=
  StorageMeets c s (c.jwt.filter token) ∧ ∀ g, c.jwtAccessGenerate = some g → SignedMeets c g s (c.jwt.filter token)

/-- **The verdict on a token**, in a state with the invariant. -/
theorem Inv.right_iff (h : Inv c s) : Right c s token ↔ Meets c s token := by
  rw [Right, Meets, ← h.storage_right_iff]
  cases hg : c.jwtAccessGenerate with
  | none =>
      have hsame : c.byStorage = c := by
        rw [ClientCredentials.byStorage, ← hg]
      simp [hsame]
  | some g =>
      have hsigned : (Accepts c s token ↔ Live c s (c.jwt.filter token)) ↔ SignedMeets c g s (c.jwt.filter token) :=
        h.signed_right_iff hg
      simp only [Option.some.injEq, forall_eq', ← hsigned]
      constructor
      · rintro ⟨hlive, hboth⟩
        exact ⟨hboth.symm.trans hlive, hlive⟩
      · rintro ⟨hstorage, hlive⟩
        exact ⟨hlive, hlive.trans hstorage.symm⟩

/-- A check of a token is right. -/
def CheckRight (c : ClientCredentials σ) (s : State σ) (op : Op) (_ : State σ) : Prop :=
  ∀ token, op = .check token → Right c s token

/-- A check of a token meets the condition of both paths. -/
def CheckMeets (c : ClientCredentials σ) (s : State σ) (op : Op) (_ : State σ) : Prop :=
  ∀ token, op = .check token → Meets c s token

/-- **Acceptance, over whole runs.** All checks of a run are right when each meets the condition. -/
theorem acceptance_iff (c : ClientCredentials σ) (now : ℤ) (ops : List Op) (s : State σ) :
    Throughout (Step c) (CheckRight c) (c.start now) ops s ↔ Throughout (Step c) (CheckMeets c) (c.start now) ops s := by
  apply throughout_congr
  intro pre u op v hrun _
  have hinv : Inv c u := inv_run hrun
  constructor
  · intro hright token hop
    exact hinv.right_iff.mp (hright token hop)
  · intro hmeets token hop
    exact hinv.right_iff.mpr (hmeets token hop)

/-! ## A refreshed token -/

/-- A storage that is two maps. -/
def mapStore : TokenStore ((Text → Option TokenInfo) × (Text → Option TokenInfo)) where
  empty := (fun _ => none, fun _ => none)
  create ti s := (fun a => if a = ti.access then some ti else s.1 a, fun r => if r = ti.refresh then some ti else s.2 r)
  removeByAccess b s := (fun a => if a = b then none else s.1 a, s.2)
  removeByRefresh b s := (s.1, fun r => if r = b then none else s.2 r)
  getByAccess s a := s.1 a
  getByRefresh s r := s.2 r
  getByAccess_empty _ := by simp
  getByAccess_create _ _ _ := by simp
  getByAccess_removeByAccess _ _ _ := by simp
  of_getByAccess_removeByRefresh _ _ _ _ := by simp

def mapManager : Manager mapStore where
  loadAccessToken s token now :=
    .ok ((mapStore.getByAccess s token).filter fun ti =>
      token ≠ [] ∧ ti.access = token ∧ ¬ti.refreshExpired now ∧ ¬ti.accessExpired now)
  load_iff s token now ti := by
    simp only [Except.ok.injEq, Option.filter_eq_some_iff, decide_eq_true_eq]
    tauto

/-- The token of the client `aaaa`, for two hours, and the one that replaces it a second later. -/
def firstToken : TokenInfo := ⟨"aaaa".toList, [], "t1".toList, 0, 7200 * second, "r1".toList, 0, 0⟩
def nextToken : TokenInfo := ⟨"aaaa".toList, [], "t2".toList, second, 7200 * second, "r2".toList, 0, 0⟩

def secret : List UInt8 := [115, 101, 99, 114, 101, 116]

/-- A parser that knows what was signed under `secret`. -/
def twoSigned (key : List UInt8) (token : Text) : Option Claims :=
  if key ≠ secret then none
  else if token = firstToken.access then some firstToken.claims
  else if token = nextToken.access then some nextToken.claims
  else none

/-- Strips the prefix `Bearer`, in any case, and the blank after it. -/
def stripBearer (token : Text) : Text :=
  if 6 < token.length ∧ (token.take 7).map Char.toUpper = "BEARER ".toList then token.drop 7 else token

def twoTokens : Jwt where
  filter := stripBearer
  signed := twoSigned
  parseWithClaims key token now := (twoSigned key token).filter (fun cl => cl.InTime now)
  parseError _ _ _ := "token is invalid".toList
  parse_iff key token now cl := by simp [Option.filter_eq_some_iff]

def jwtServer : ClientCredentials ((Text → Option TokenInfo) × (Text → Option TokenInfo)) where
  tokenStorage := mapStore
  manager := mapManager
  clientStorage id := if id = "aaaa".toList then some ⟨id, id⟩ else none
  clientError _ := "not found".toList
  jwt := twoTokens
  jwtAccessGenerate := some ⟨secret, .hmac⟩

theorem generated_of_signed (ti : TokenInfo) (hne : ti.access ≠ []) (hknown : ti.clientID = "aaaa".toList)
    (hsigned : twoSigned secret ti.access = some ti.claims) : Generated jwtServer ti where
  ne_nil := hne
  known := by simp [jwtServer, hknown]
  signed g hg _ := by
    cases hg
    exact hsigned
  unsigned g hg hmethod := by
    cases hg
    exact absurd (Eq.refl _) hmethod

/-- **The token that was refreshed** is still accepted. -/
theorem not_acceptance :
    ¬∀ (σ : Type) (c : ClientCredentials σ) (now : ℤ) (ops : List Op) (s : State σ),
      Run (Step c) (c.start now) ops s → Throughout (Step c) (CheckRight c) (c.start now) ops s := by
  intro h
  have hfirst : Generated jwtServer firstToken := generated_of_signed firstToken (by decide) (by decide) (by decide)
  have hnext : Generated jwtServer nextToken := generated_of_signed nextToken (by decide) (by decide) (by decide)
  have hrun : Run (Step jwtServer) (jwtServer.start 0)
      [.issue firstToken, .pass second, .refresh firstToken nextToken] _ :=
    .cons (.issue hfirst (by decide))
      (.cons (.pass (by decide)) (.single (.refresh (by rfl) hnext (by decide) (by decide))))
  have hcheck : ∀ u, Step jwtServer u (.check "t1".toList) u := fun u => .check
  have hall := h _ jwtServer 0 _ _ (hrun.append (.single (hcheck _)))
  have hright := hall _ _ [] _ _ (Eq.refl _) hrun (hcheck _) .nil "t1".toList (Eq.refl _)
  obtain ⟨ti, -, -, hget, -⟩ := hright.1.mp ⟨⟨"aaaa".toList, "aaaa".toList⟩, by decide⟩
  cases hget

end Oauth2
end ServiceKit
