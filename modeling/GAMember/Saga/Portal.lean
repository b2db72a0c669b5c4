import GAMember.Saga.Effect

/-!
# The saga of `state/portal`

`ecdRedirect$`: read the user's record, check its access token with the OAuth
server and open the ECD link with it; where that fails, refresh the token pair,
open the link with the new access token and store the pair.

The database callback starts a promise chain and returns without waiting for it.
Its two `catch` handlers swallow everything the chain throws, and the saga has
nothing left to do once the callback has returned, so the chain is written where
it is started.
The promises of `openURL` and `set` are dropped, so it is only a throw of the call
itself that reaches a handler; a promise rejected later goes unnoticed.

`base64` stands for the encoder of `react-native-base64`.
-/

namespace GAMember

open Saga

/-! ## Constants and texts -/

def CLIENT_ID : String := "clEnrgId"

def CLIENT_PASS : String := "Hm7FrtWRyuuTFlJS5Sz71HPJE19iLXtkAJFM4dmC"

def ECD_LINK : String := "http://dev.enrg.bloxico.com/"

/-- The link that opens the ECD portal with a token. -/
def ecdLink (token : Val) : String := ECD_LINK ++ "auth?token=" ++ token.toText

/-- `oauth/check_token?token=${token.accessToken}`. -/
def checkTokenUrl (accessToken : Val) : String :=
  "oauth/check_token?token=" ++ accessToken.toText

theorem checkTokenUrl_ne (token : Val) : checkTokenUrl token ≠ "oauth/token" := by
  have texts (t : String) : "oauth/check_token?token=" ++ t ≠ "oauth/token" := by
    intro same
    have chars : ("oauth/check_token?token=" ++ t).toList = "oauth/token".toList := by rw [same]
    rw [String.toList_append] at chars
    simp at chars
  exact texts token.toText

/-- The third argument of the `check_token` post. -/
def checkTokenOpts (base64 : String → String) : Val :=
  .object [("headers", .object
    [("Authorization", .str ("Basic " ++ base64 (CLIENT_ID ++ ":" ++ CLIENT_PASS)))])]

/-- The encoder of `react-native-base64` at the text it is called with. -/
def base64Client : String → String := fun _ =>
  "Y2xFbnJnSWQ6SG03RnJ0V1J5dXVURmxKUzVTejcxSFBKRTE5aUxYdGtBSkZNNGRtQw=="

/-- The body of the token request: `key=encodeURIComponent(value)` for each
parameter, joined with `&`. -/
def tokenBody (params : List (String × Val)) : String :=
  "&".intercalate (params.map fun p => p.1 ++ "=" ++ encodeURIComponent p.2.toText)

/-- The third argument of the token request. -/
def tokenOpts : Val :=
  .object
    [("auth", .object [("username", .str CLIENT_ID), ("password", .str CLIENT_PASS)]),
     ("headers", .object [("Content-Type", .str "application/x-www-form-urlencoded")])]

/-! ## `ecdRedirect$` -/

/-- Store the new pair; `data` is the body of the token response. -/
def ecdStore (user : Val) (emailEscaped : String) (data : Val) : Saga Unit := do
  let email ← prop user "email"
  let name ← prop user "name"
  let access ← prop data "access_token"
  let refresh ← prop data "refresh_token"
  let _ ← await (.set ("/users/" ++ emailEscaped)
    (.object [("email", email), ("name", name), ("accessToken", access),
      ("refreshToken", refresh)]))

/-- The handler of the outer `catch`: refresh the pair, open the link with the
new access token, store the pair. Its own `catch` drops every failure. -/
def ecdRefresh (user : Val) (emailEscaped : String) (params : List (String × Val)) : Saga Unit :=
  Prog.tryCatch
    (do
      let response ← await (.post "oauth/token" (.str (tokenBody params)) tokenOpts)
      let data ← prop response "data"
      let newToken ← prop data "access_token"
      let _ ← await (.openURL (ecdLink newToken))
      ecdStore user emailEscaped data)
    (pure ())

/-- The success callback of the database read; `token` is `snapshot.val()`. -/
def ecdCallback (base64 : String → String) (user : Val) (emailEscaped : String) (token : Val) :
    Saga Unit := do
  let refreshToken ← prop token "refreshToken"
  let params := [("grant_type", .str "refresh_token"), ("refresh_token", refreshToken)]
  if token.truthy then
    let accessToken ← prop token "accessToken"
    Prog.tryCatch
      (do
        let _ ← await (.post (checkTokenUrl accessToken) .null (checkTokenOpts base64))
        let _ ← await (.openURL (ecdLink accessToken)))
      (ecdRefresh user emailEscaped params)

/-- `ecdRedirect$`. -/
def ecdRedirectSaga (base64 : String → String) (user : Val) : Saga Unit :=
  Prog.tryCatch
    (do
      let email ← prop user "email"
      let emailEscaped ← ofOption email.replaceDots
      once ("/users/" ++ emailEscaped) (ecdCallback base64 user emailEscaped) (pure ()))
    (put .ecdRedirectFail)

section

variable (base64 : String → String) (user : Val) (key : String) (params : List (String × Val))
  (token : Val)

/-- A user without a key: the saga fails before it asks for anything. -/
theorem ecdRedirectSaga_of_noKey (named : (user.prop "email").bind Val.replaceDots = none) :
    ecdRedirectSaga base64 user = put .ecdRedirectFail := by
  unfold ecdRedirectSaga Saga.prop
  cases field : user.prop "email" with
  | none => rfl
  | some email =>
  rw [field, Option.bind_some] at named
  rw [ofOption_some, Prog.ret_bind, named]
  rfl

theorem ecdRedirectSaga_of_key {key : String}
    (named : (user.prop "email").bind Val.replaceDots = some key) :
    ecdRedirectSaga base64 user =
      (once ("/users/" ++ key) (ecdCallback base64 user key) (pure ())).tryCatch
        (put .ecdRedirectFail) := by
  obtain ⟨email, field, escaped⟩ := Option.bind_eq_some_iff.mp named
  rw [ecdRedirectSaga, Saga.prop, field, ofOption_some, Prog.ret_bind, escaped, ofOption_some,
    Prog.ret_bind]

/-! ## What escapes the callback -/

theorem ecdRefresh_neverThrows : (ecdRefresh user key params).NeverThrows :=
  Prog.NeverThrows.of_handler (Prog.neverThrows_ret ()) _

/-- Once the record has given its refresh token, nothing escapes the callback. -/
theorem ecdCallback_neverThrows {refreshToken : Val}
    (readable : token.prop "refreshToken" = some refreshToken) :
    (ecdCallback base64 user key token).NeverThrows := by
  simp only [ecdCallback, Saga.prop, readable, ofOption_some, Prog.ret_bind]
  split
  · rename_i truthy
    obtain ⟨accessToken, field⟩ := Val.prop_of_truthy truthy "accessToken"
    rw [field]
    exact Prog.NeverThrows.of_handler (ecdRefresh_neverThrows user key _) _
  · trivial

/-! ## What the saga avoids -/

/-- Storing the pair does nothing but write to the database. -/
theorem ecdStore_avoids {bad : Eff → Bool} (data : Val)
    (sets : ∀ path v, bad (.set path v) = false) : (ecdStore user key data).Avoids bad :=
  (ofOption_avoids _).bind fun _ => (ofOption_avoids _).bind fun _ =>
    (ofOption_avoids _).bind fun _ => (ofOption_avoids _).bind fun _ =>
    (await_avoids (sets _ _)).bind fun _ => trivial

section

variable {bad : Eff → Bool} (posts : ∀ url data opts, bad (.post url data opts) = false)
  (opens : ∀ url, bad (.openURL url) = false) (sets : ∀ path v, bad (.set path v) = false)

include posts opens sets

theorem ecdRefresh_avoids : (ecdRefresh user key params).Avoids bad := by
  refine Prog.Avoids.tryCatch ?_ (Prog.avoids_ret _ ())
  exact (await_avoids (posts _ _ _)).bind fun _ => (ofOption_avoids _).bind fun data =>
    (ofOption_avoids _).bind fun _ => (await_avoids (opens _)).bind fun _ =>
    ecdStore_avoids user key data sets

/-- The callback posts, opens links and writes to the database, no more. -/
theorem ecdCallback_avoids : (ecdCallback base64 user key token).Avoids bad := by
  refine (ofOption_avoids _).bind fun refreshToken => ?_
  split
  · refine (ofOption_avoids _).bind fun accessToken => Prog.Avoids.tryCatch ?_ ?_
    · exact (await_avoids (posts _ _ _)).bind fun _ => (await_avoids (opens _)).bind fun _ =>
        trivial
    · exact ecdRefresh_avoids user key _ posts opens sets
  · trivial

theorem ecdRedirect_avoids (fails : bad (.put .ecdRedirectFail) = false)
    (refs : ∀ path, bad (.ref path) = false) (reads : ∀ path, bad (.value path) = false)
    (settles : bad .settle = false) : (ecdRedirectSaga base64 user).Avoids bad := by
  refine Prog.Avoids.tryCatch ?_ (put_avoids fails)
  exact (ofOption_avoids _).bind fun _ => (ofOption_avoids _).bind fun key =>
    once_avoids (refs _) (reads _) settles
      (fun token => ecdCallback_avoids base64 user key token posts opens sets)
      (Prog.avoids_ret _ ())

end

/-! ## Along the saga -/

/-- The effects of the callback. -/
def Eff.ofCallback : Eff → Bool
  | .post _ _ _ => true
  | .openURL _ => true
  | .set _ _ => true
  | _ => false

/-- What holds along the callback, and where none of its effects comes next, holds
along the saga. -/
theorem ecdRedirect_along {ok : Trace → Eff → Answer → Prop} {P : Trace → Saga Unit → Prop}
    (quiet : ∀ past (rest : Saga Unit), (∀ e, rest.head? = some e → e.ofCallback = false) →
      P past rest)
    (callback : ∀ key v snapshot refreshToken,
      (user.prop "email").bind Val.replaceDots = some key →
      ok [(.ref ("/users/" ++ key), v)] (.value ("/users/" ++ key)) (.returns snapshot) →
      snapshot.prop "refreshToken" = some refreshToken →
      Prog.Along ok P [(.ref ("/users/" ++ key), v), (.value ("/users/" ++ key), .returns snapshot)]
        (ecdCallback base64 user key snapshot)) :
    Prog.Along ok P [] (ecdRedirectSaga base64 user) := by
  have silent {saga : Saga Unit} (avoids : saga.Avoids Eff.ofCallback) (past : Trace) :
      Prog.Along ok P past saga := avoids.along_head quiet past
  have settling : (do let _ ← await .settle : Saga Unit).Avoids Eff.ofCallback :=
    (await_avoids rfl).bind fun _ => Prog.avoids_ret _ ()
  cases named : (user.prop "email").bind Val.replaceDots with
  | none =>
    rw [ecdRedirectSaga_of_noKey base64 user named]
    exact silent (put_avoids rfl) _
  | some key =>
  rw [ecdRedirectSaga_of_key base64 user named]
  refine ⟨quiet _ _ fun e here => by cases here; rfl, fun v _ => ?_⟩
  cases v with
  | throws => exact silent (put_avoids rfl) _
  | returns v =>
  refine ⟨quiet _ _ fun e here => by cases here; rfl, fun a admitted => ?_⟩
  cases a with
  | throws => exact silent (settling.tryCatch (put_avoids rfl)) _
  | returns snapshot =>
  cases readable : snapshot.prop "refreshToken" with
  | none =>
    have thrown : ecdCallback base64 user key snapshot = .thrown := by
      rw [ecdCallback, Saga.prop, readable]
      rfl
    refine silent (Prog.Avoids.tryCatch (Prog.Avoids.tryCatch ?_ settling) (put_avoids rfl)) _
    rw [thrown]
    trivial
  | some refreshToken =>
    have never := ecdCallback_neverThrows base64 user key snapshot readable
    have same : ((ecdCallback base64 user key snapshot).tryCatch
        (do let _ ← await .settle)).tryCatch (put .ecdRedirectFail) =
        ecdCallback base64 user key snapshot := by
      rw [never.tryCatch_eq, never.tryCatch_eq]
    have along := callback key _ snapshot refreshToken named admitted readable
    rw [← same] at along
    exact along

end

end GAMember
