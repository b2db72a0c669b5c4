import GAMember.Js.Query
import GAMember.Run.Portal

/-!
# The tokens `ecdRedirect$` sends

Three URLs carry an access token as it is, and the body of the token request carries
the refresh token encoded. Whoever receives them decodes a query or a form, so the
body always gives back what was put in, and a URL does for a token without the
characters that mean something there.

`tokensComeBack_iff` says for which tokens every place of every run does.
-/

namespace GAMember

open Saga

/-- The token has none of the characters that a query decodes or is cut at. -/
def queryClean (token : String) : Bool :=
  token.toList.all (fun c => c ∉ ['#', '&', '+']) && !hasEscape token.toList

/-- The run has asked for a new pair. -/
def Trace.asksPair (tr : Trace) : Bool :=
  tr.any fun step =>
    match step.1 with
    | .post url _ _ => url = "oauth/token"
    | _ => false

/-- The record that is read has the stored tokens, and the pair that is issued has the
refreshed one. -/
def GivesTokens (access refresh refreshed : String) (_ : Trace) (e : Eff) (a : Answer) : Prop :=
  match e, a with
  | .value _, .returns record =>
      record.prop "accessToken" = some (.str access) ∧
        record.prop "refreshToken" = some (.str refresh)
  | .post url _ _, .returns response =>
      url = "oauth/token" →
        (response.prop "data").bind (·.prop "access_token") = some (.str refreshed)
  | _, _ => True

/-- The receiver of a call reads the token that was put in: the stored one in the URL
of the check and in the first link, the refreshed one in the link after a refresh,
and in the body the two parameters. -/
def ReadBack (access refresh refreshed : String) (hist : Trace) : Eff → Prop
  | .post url body _ =>
      if url = "oauth/token" then
        ∃ text, body = .str text ∧ decodeBody text =
          some [("grant_type", "refresh_token"), ("refresh_token", refresh)]
      else valueOf "token" (decodeQuery url) = some access
  | .openURL url =>
      valueOf "token" (decodeQuery url) = some (if hist.asksPair then refreshed else access)
  | _ => True

def ReadsBack (access refresh refreshed : String) (hist : Trace) (rest : Saga Unit) : Prop :=
  ∀ e, rest.head? = some e → ReadBack access refresh refreshed hist e

/-- Every token of every run comes back. -/
def TokensComeBack (access refresh refreshed : String) : Prop :=
  ∀ base64 user, Prog.Along (GivesTokens access refresh refreshed)
    (ReadsBack access refresh refreshed) [] (ecdRedirectSaga base64 user)

/-! ## The texts -/

theorem queryClean_iff {token : String} :
    queryClean token = true ↔ ('#' ∉ token.toList ∧ '&' ∉ token.toList) ∧
      '+' ∉ token.toList ∧ hasEscape token.toList = false := by
  simp only [queryClean, Bool.and_eq_true, List.all_eq_true, decide_eq_true_eq,
    Bool.not_eq_true', List.mem_cons, List.not_mem_nil, or_false, not_or]
  constructor
  · intro clean
    rcases clean with ⟨chars, plain⟩
    exact ⟨⟨fun member => (chars _ member).1 rfl, fun member => (chars _ member).2.1 rfl⟩,
      fun member => (chars _ member).2.2 rfl, plain⟩
  · intro clean
    rcases clean with ⟨⟨fragment, separator⟩, noPlus, plain⟩
    refine ⟨fun c member => ⟨?_, ?_, ?_⟩, plain⟩
    · exact fun same => fragment (same ▸ member)
    · exact fun same => separator (same ▸ member)
    · exact fun same => noPlus (same ▸ member)

theorem valueOf_checkTokenUrl (token : String) :
    valueOf "token" (decodeQuery (checkTokenUrl (.str token))) = some token ↔
      queryClean token = true := by
  have text : checkTokenUrl (.str token) = "oauth/check_token" ++ "?" ++ "token" ++ "=" ++ token :=
    congrArg (· ++ token) (by decide : "oauth/check_token?token=" = _)
  rw [text, queryClean_iff]
  exact valueOf_decodeQuery (by decide) (by decide) (by decide)

theorem valueOf_ecdLink (token : String) :
    valueOf "token" (decodeQuery (ecdLink (.str token))) = some token ↔
      queryClean token = true := by
  have text : ecdLink (.str token) = ECD_LINK ++ "auth" ++ "?" ++ "token" ++ "=" ++ token :=
    congrArg (· ++ token) (by decide : ECD_LINK ++ "auth?token=" = _)
  rw [text, queryClean_iff]
  exact valueOf_decodeQuery (by decide) (by decide) (by decide)

theorem decodeBody_tokenBody (refresh : String) :
    decodeBody (tokenBody [("grant_type", .str "refresh_token"), ("refresh_token", .str refresh)]) =
      some [("grant_type", "refresh_token"), ("refresh_token", refresh)] := by
  have first : PlainName "grant_type" := by decide
  have second : PlainName "refresh_token" := by decide
  refine decodeBody_intercalate [("grant_type", "refresh_token"), ("refresh_token", refresh)] ?_
  intro p member
  simp only [List.mem_cons, List.not_mem_nil, or_false] at member
  rcases member with rfl | rfl
  · exact first
  · exact second

/-! ## The runs -/

section

variable {access refresh refreshed : String}

/-- Nothing is sent to a receiver. -/
def Eff.sends : Eff → Bool
  | .post _ _ _ => true
  | .openURL _ => true
  | _ => false

theorem readsBack_of_avoids {saga : Saga Unit} (quiet : saga.Avoids Eff.sends) (past : Trace) :
    Prog.Along (GivesTokens access refresh refreshed) (ReadsBack access refresh refreshed) past
      saga := by
  refine quiet.along_head (fun hist rest silent e here => ?_) past
  have unsent := silent e here
  cases e with
  | post url body opts => cases unsent
  | openURL url => cases unsent
  | _ => trivial

theorem readBack_link {token : String} {past : Trace}
    (carried : (if past.asksPair then refreshed else access) = token) :
    ReadBack access refresh refreshed past (.openURL (ecdLink (.str token))) ↔
      queryClean token = true := by
  rw [ReadBack, carried, valueOf_ecdLink]

/-- What is left after a link is open. -/
theorem stored_avoids (user data : Val) (key : String) (a : Answer) :
    Prog.Avoids Eff.sends (Prog.tryCatch ((match a with
      | .returns v => (.ret v : Saga Val)
      | .throws => .thrown) >>= fun _ => ecdStore user key data) (pure ())) := by
  refine Prog.Avoids.tryCatch (Prog.Avoids.bind ?_ fun _ => ?_) (Prog.avoids_ret _ ())
  · cases a <;> trivial
  · exact ecdStore_avoids user key data fun _ _ => rfl

/-- The request for a new pair gives the refresh token back, and the link after it the
token that is issued. -/
theorem ecdRefresh_readsBack (user : Val) (key : String) (past : Trace) :
    Prog.Along (GivesTokens access refresh refreshed) (ReadsBack access refresh refreshed) past
      (ecdRefresh user key [("grant_type", .str "refresh_token"),
        ("refresh_token", .str refresh)]) ↔ queryClean refreshed = true := by
  have asked (a : Answer) (body opts : Val) : (if Trace.asksPair
      (past ++ [(.post "oauth/token" body opts, a)]) then refreshed else access) = refreshed :=
    if_pos (by simp [Trace.asksPair])
  simp only [ecdRefresh, await, Saga.prop, Prog.call_bind, Prog.tryCatch_call, Prog.along_call]
  constructor
  · intro along
    have link := along.2 (.returns (.object [("data", .object [("access_token", .str refreshed)])]))
      fun _ => rfl
    exact (readBack_link (asked _ _ _)).mp (link.here _ rfl)
  · intro clean
    refine ⟨?_, fun a gives => ?_⟩
    · intro e here
      cases here
      exact ⟨_, rfl, decodeBody_tokenBody refresh⟩
    · cases a with
      | throws => exact readsBack_of_avoids (Prog.avoids_ret _ ()) _
      | returns response =>
      obtain ⟨data, hasData, hasAccess⟩ := Option.bind_eq_some_iff.mp (gives rfl)
      simp only [hasData, hasAccess, ofOption_some, Prog.ret_bind, Prog.tryCatch_call]
      refine ⟨fun e here => ?_, fun a _ => readsBack_of_avoids (stored_avoids user data key a) _⟩
      cases here
      exact (readBack_link (asked _ _ _)).mpr clean

/-- A text is a property of an object only. -/
theorem truthy_of_prop {v : Val} {key text : String} (field : v.prop key = some (.str text)) :
    v.truthy = true := by
  cases v with
  | obj fields => rfl
  | _ => cases field

/-- The callback checks the stored token, and goes on to a link or to a refresh. -/
theorem ecdCallback_readsBack (base64 : String → String) (user : Val) (key : String)
    {token : Val} (hasAccess : token.prop "accessToken" = some (.str access))
    (hasRefresh : token.prop "refreshToken" = some (.str refresh)) {past : Trace}
    (unasked : past.asksPair = false) :
    Prog.Along (GivesTokens access refresh refreshed) (ReadsBack access refresh refreshed) past
        (ecdCallback base64 user key token) ↔
      queryClean access = true ∧ queryClean refreshed = true := by
  have other := checkTokenUrl_ne (.str access)
  have still (a : Answer) : (if Trace.asksPair (past ++ [(.post (checkTokenUrl (.str access)) .null
      (checkTokenOpts base64), a)]) then refreshed else access) = access := by
    refine if_neg ?_
    unfold Trace.asksPair at unasked ⊢
    rw [List.any_append, unasked]
    simp [other]
  simp only [ecdCallback, Saga.prop, hasAccess, hasRefresh, truthy_of_prop hasAccess, if_true,
    await, ofOption_some, Prog.ret_bind, Prog.call_bind, Prog.tryCatch_call]
  constructor
  · intro along
    have check := along.here _ rfl
    rw [ReadBack, if_neg other] at check
    have refused := along.2 .throws trivial
    exact ⟨(valueOf_checkTokenUrl access).mp check, (ecdRefresh_readsBack user key _).mp refused⟩
  · intro clean
    rcases clean with ⟨stored, issued⟩
    refine ⟨fun e here => ?_, fun a _ => ?_⟩
    · cases here
      rw [ReadBack, if_neg other]
      exact (valueOf_checkTokenUrl access).mpr stored
    · cases a with
      | throws => exact (ecdRefresh_readsBack user key _).mpr issued
      | returns v =>
      refine ⟨fun e here => ?_, fun a _ => ?_⟩
      · cases here
        exact (readBack_link (still _)).mpr stored
      · cases a with
        | throws => exact (ecdRefresh_readsBack user key _).mpr issued
        | returns _ => exact readsBack_of_avoids (Prog.avoids_ret _ ()) _

end

/-- The run that is refused asks at every place. -/
theorem queryClean_of_tokensComeBack {access refresh refreshed : String}
    (comesBack : TokensComeBack access refresh refreshed) :
    queryClean access = true ∧ queryClean refreshed = true := by
  have along := comesBack base64Client annUser
  rw [ecdRedirectSaga_of_key base64Client annUser (rfl : _ = some "ann@x,org")] at along
  have never := ecdCallback_neverThrows base64Client annUser "ann@x,org"
    (.object [("accessToken", .str access), ("refreshToken", .str refresh)]) rfl
  have read : Prog.Along _ _ _ (((ecdCallback base64Client annUser "ann@x,org" (.object
      [("accessToken", .str access), ("refreshToken", .str refresh)])).tryCatch _).tryCatch _) :=
    (along.2 (.returns .undefined) trivial).2 (.returns _) ⟨rfl, rfl⟩
  rw [never.tryCatch_eq, never.tryCatch_eq] at read
  exact (ecdCallback_readsBack base64Client annUser _ rfl rfl rfl).mp read

/-- **Every token comes back exactly when** the access tokens are clean; the refresh
token always does. -/
theorem tokensComeBack_iff (access refresh refreshed : String) :
    TokensComeBack access refresh refreshed ↔
      queryClean access = true ∧ queryClean refreshed = true := by
  constructor
  · exact queryClean_of_tokensComeBack
  · intro clean base64 user
    refine ecdRedirect_along base64 user ?_ ?_
    · intro past rest quiet e here
      have uncalled := quiet e here
      cases e with
      | post url body opts => cases uncalled
      | openURL url => cases uncalled
      | _ => trivial
    · intro key v snapshot refreshToken _ gives readable
      exact (ecdCallback_readsBack base64 user key gives.1 gives.2 rfl).mpr clean

/-- A plus sign in the stored token reaches the receiver as a blank. -/
theorem not_tokensComeBack_plus : ¬ TokensComeBack "a+b" "r0" "a1" := by
  intro comesBack
  exact absurd (queryClean_of_tokensComeBack comesBack).1 (by decide)

example : valueOf "token" (decodeQuery (checkTokenUrl (.str "a+b"))) = some "a b" := by decide

end GAMember
