import GAMember.Cloud.Database
import GAMember.Run.Portal

/-!
# A refresh and what it leaves behind

When the server rejects the access token of a record, `ecdRedirect$` asks for a new
pair, opens the link with the new access token and only then writes the pair to the
record. Nothing ties the last two steps together, so the link may be open while the
record still has the old pair.

`refreshAtomic_iff` says when the two go together, for one run over a database that
nobody else writes to.
-/

namespace GAMember

open Saga

/-- The outcomes of the calls over a database: a read gives what is there, and a
`set` of a value that cannot be stored throws. All else is as `env` has it. -/
def databaseEnv (db : Val) (env : Eff → Answer) : Eff → Answer
  | .value path => .returns (db.atPath (segments path))
  | .set path v => if v.storable then env (.set path v) else .throws
  | e => env e

/-- The database after the writes of a trace. -/
def Trace.leaves (base64 : String → String) (db : Val) (tr : Trace) : Val :=
  tr.foldl (fun db step => (cloud base64).after db step.1 step.2) db

/-- The path of the record `ecdRedirect$` reads and writes. -/
def redirectPath (key : String) : String := "/users/" ++ key

/-- The record `ecdRedirect$` writes. -/
def pairRecord (email name access refresh : Val) : Val :=
  .object [("email", email), ("name", name), ("accessToken", access), ("refreshToken", refresh)]

/-- A run that refreshes: it reads a record, and the server rejects its access token. -/
structure Refreshes (base64 : String → String) (env : Eff → Answer) (db user : Val)
    (key : String) : Prop where
  named : redirectKey user = some key
  referenced : (env (.ref (redirectPath key))).failed = false
  present : (db.atPath (segments (redirectPath key))).truthy = true
  rejected : ∀ access,
    (db.atPath (segments (redirectPath key))).prop "accessToken" = some access →
    env (.post (checkTokenUrl access) .null (checkTokenOpts base64)) = .throws

/-- The link is opened with the issued access token and the record holds the issued
pair with this email and name, or no link is opened and the record is as it was. -/
def RefreshAtomic (base64 : String → String) (db : Val) (key : String) (email name : Val)
    (tr : Trace) : Prop :=
  let left := (tr.leaves base64 db).atPath (segments (redirectPath key))
  (∃ access refresh v, issuedPair tr = some (access, refresh) ∧
      (.openURL (ecdLink access), .returns v) ∈ tr ∧ left = pairRecord email name access refresh) ∨
    (tr.opened = false ∧ left = db.atPath (segments (redirectPath key)))

/-- The request for a new pair. -/
def tokenRequest (refreshToken : Val) : Eff :=
  .post "oauth/token" (.str (tokenBody
    [("grant_type", .str "refresh_token"), ("refresh_token", refreshToken)])) tokenOpts

/-- The pair in the answer to the request for it, where it can be read. -/
def answeredPair (env : Eff → Answer) (refreshToken : Val) : Option (Val × Val) :=
  match env (tokenRequest refreshToken) with
  | .returns response => tokenPair response
  | .throws => none

/-- A write of `v` leaves `w` in the database. -/
def Val.keptAs (v w : Val) : Bool := v.stored = w && w ≠ .null

/-- The write of the pair: where it throws, the record must hold this very pair
already; otherwise the database must keep each of the four values. -/
def storesPair (env : Eff → Answer) (db user : Val) (key : String)
    (email name access refresh : Val) : Bool :=
  let userEmail := (user.prop "email").getD .undefined
  let userName := (user.prop "name").getD .undefined
  if (databaseEnv db env (.set (redirectPath key)
      (pairRecord userEmail userName access refresh))).failed then
    db.atPath (segments (redirectPath key)) = pairRecord email name access refresh
  else
    userEmail.keptAs email && userName.keptAs name && access.keptAs access && refresh.keptAs refresh

/-- There is no pair to read in the answer, or the call that opens the link throws,
or the pair is stored. -/
def refreshCompletes (env : Eff → Answer) (db user : Val) (key : String) (email name : Val) :
    Bool :=
  let record := db.atPath (segments (redirectPath key))
  match answeredPair env ((record.prop "refreshToken").getD .undefined) with
  | none => true
  | some (access, refresh) =>
      (env (.openURL (ecdLink access))).failed ||
        storesPair env db user key email name access refresh

/-! ## The stored record -/

theorem pairRecord_stored {email name access refresh email' name' access' refresh' : Val} :
    (pairRecord email name access refresh).stored = pairRecord email' name' access' refresh' ↔
      (email.keptAs email' && name.keptAs name' && access.keptAs access' &&
        refresh.keptAs refresh') = true := by
  simp only [pairRecord, Val.object, Fields.ofList_cons, Fields.ofList_nil, Val.stored_obj]
  rw [Val.ofFields_eq_obj (by simp), Fields.stored_cons_eq_cons, Fields.stored_cons_eq_cons,
    Fields.stored_cons_eq_cons, Fields.stored_cons_eq_cons rfl]
  · simp [Val.keptAs, and_assoc]
  · exact Fields.find?_stored_cons_of_ne (by decide) _ _
  · rw [Fields.find?_stored_cons_of_ne (by decide)]
    exact Fields.find?_stored_cons_of_ne (by decide) _ _
  · rw [Fields.find?_stored_cons_of_ne (by decide), Fields.find?_stored_cons_of_ne (by decide)]
    exact Fields.find?_stored_cons_of_ne (by decide) _ _

/-! ## The steps of a refresh -/

section

variable {base64 : String → String} {env : Eff → Answer} {reopened : Answer}
  {db user : Val} {key : String}

theorem tokenPair_eq_none {response : Val} (unreadable : tokenPair response = none) :
    (response.prop "data").bind (·.prop "access_token") = none := by
  unfold tokenPair at unreadable
  cases hasData : response.prop "data" with
  | none => rfl
  | some data =>
    rw [hasData, Option.bind_some] at unreadable
    cases hasAccess : data.prop "access_token" with
    | none => exact hasAccess
    | some access =>
      obtain ⟨refresh, hasRefresh⟩ := Val.prop_of_prop hasAccess "refresh_token"
      rw [hasAccess, hasRefresh] at unreadable
      cases unreadable

theorem tokenPair_eq_some {response access refresh : Val}
    (pair : tokenPair response = some (access, refresh)) : ∃ data,
      response.prop "data" = some data ∧ data.prop "access_token" = some access ∧
        data.prop "refresh_token" = some refresh := by
  obtain ⟨data, hasData, pair⟩ := Option.bind_eq_some_iff.mp pair
  obtain ⟨access', hasAccess, pair⟩ := Option.bind_eq_some_iff.mp pair
  obtain ⟨refresh', hasRefresh, same⟩ := Option.map_eq_some_iff.mp pair
  cases same
  exact ⟨data, hasData, hasAccess, hasRefresh⟩

/-- The trace of a run that refreshes, up to the rejected access token. -/
theorem redirectTrace_refreshes (reopened : Answer) (refreshes : Refreshes base64 env db user key) :
    ∃ v access, redirectTrace base64 (databaseEnv db env) reopened user =
      (ecdRefresh user key [("grant_type", .str "refresh_token"), ("refresh_token",
          ((db.atPath (segments (redirectPath key))).prop "refreshToken").getD .undefined)]).run
        (redirectEnv (databaseEnv db env) reopened)
        [(.ref (redirectPath key), .returns v),
          (.value (redirectPath key), .returns (db.atPath (segments (redirectPath key)))),
          (.post (checkTokenUrl access) .null (checkTokenOpts base64), .throws)] := by
  rcases refreshes with ⟨named, referenced, present, rejected⟩
  obtain ⟨access, hasAccess⟩ := Val.prop_of_truthy present "accessToken"
  obtain ⟨refresh, hasRefresh⟩ := Val.prop_of_truthy present "refreshToken"
  cases given : env (.ref (redirectPath key)) with
  | throws =>
    rw [given] at referenced
    cases referenced
  | returns v =>
  have never := ecdCallback_neverThrows base64 user key
    (db.atPath (segments (redirectPath key))) hasRefresh
  have thrown : databaseEnv db env (.post (checkTokenUrl access) .null (checkTokenOpts base64)) =
      .throws := rejected access hasAccess
  refine ⟨v, access, ?_⟩
  rw [redirectTrace_read base64 (databaseEnv db env) reopened user
    (db.atPath (segments (redirectPath key))) named given rfl, never.tryCatch_eq, never.tryCatch_eq]
  simp only [ecdCallback, Saga.prop, hasAccess, hasRefresh, present, await, ofOption_some,
    Prog.ret_bind, if_true, Prog.call_bind, Prog.tryCatch_call, Prog.run_call, thrown,
    redirectEnv_other (e := .post (checkTokenUrl access) .null (checkTokenOpts base64)) rfl,
    Prog.thrown_bind, Prog.tryCatch_thrown, Option.getD_some]
  rfl

section

variable {past : Trace} {refreshToken : Val}

/-- Without a pair to read the refresh is a request, and no more. -/
theorem run_unanswered (unanswered : answeredPair env refreshToken = none) :
    (ecdRefresh user key [("grant_type", .str "refresh_token"),
        ("refresh_token", refreshToken)]).run (redirectEnv (databaseEnv db env) reopened) past =
      past ++ [(tokenRequest refreshToken, env (tokenRequest refreshToken))] := by
  have trace := run_ecdRefresh (redirectEnv (databaseEnv db env) reopened) past user key
    [("grant_type", .str "refresh_token"), ("refresh_token", refreshToken)]
    (e := tokenRequest refreshToken) rfl (redirectEnv_other rfl _ reopened past)
  have same : databaseEnv db env (tokenRequest refreshToken) = env (tokenRequest refreshToken) := rfl
  rw [same] at trace
  unfold answeredPair at unanswered
  cases answer : env (tokenRequest refreshToken) with
  | throws =>
    simp only [answer] at trace
    exact trace
  | returns response =>
    rw [answer] at unanswered
    have unreadable := tokenPair_eq_none unanswered
    simp only [answer, Answer.prop_returns, unreadable] at trace
    exact trace

/-- With a pair the link is opened, and the pair is written if that does not throw. -/
theorem run_answered (reopened : Answer) (db : Val) (key : String) (past : Trace)
    {access refresh email name : Val}
    (closed : past.any (fun step => step.1.opens) = false)
    (answered : answeredPair env refreshToken = some (access, refresh))
    (hasEmail : user.prop "email" = some email) (hasName : user.prop "name" = some name) :
    ∃ response, tokenPair response = some (access, refresh) ∧
      (ecdRefresh user key [("grant_type", .str "refresh_token"),
          ("refresh_token", refreshToken)]).run (redirectEnv (databaseEnv db env) reopened) past =
        past ++ (tokenRequest refreshToken, .returns response) ::
          (.openURL (ecdLink access), env (.openURL (ecdLink access))) ::
          if (env (.openURL (ecdLink access))).failed then []
          else [(.set (redirectPath key) (pairRecord email name access refresh),
            databaseEnv db env (.set (redirectPath key)
              (pairRecord email name access refresh)))] := by
  unfold answeredPair at answered
  cases answer : env (tokenRequest refreshToken) with
  | throws =>
    rw [answer] at answered
    cases answered
  | returns response =>
  rw [answer] at answered
  refine ⟨response, answered, ?_⟩
  obtain ⟨data, hasData, hasAccess, hasRefresh⟩ := tokenPair_eq_some answered
  have request := redirectEnv_other (e := tokenRequest refreshToken) rfl (databaseEnv db env)
    reopened past
  have requested : databaseEnv db env (tokenRequest refreshToken) = .returns response := answer
  have unopened : (past ++ [(tokenRequest refreshToken, Answer.returns response)]).any
      (fun step => step.1.opens) = false := by
    rw [List.any_append, closed]
    rfl
  unfold tokenRequest at request requested unopened
  simp only [ecdRefresh, await, Saga.prop, Prog.call_bind, Prog.tryCatch_call, Prog.run_call,
    request, requested, hasData, hasAccess, ofOption_some, Prog.ret_bind,
    redirectEnv_opens _ _ unopened]
  have link : databaseEnv db env (.openURL (ecdLink access)) = env (.openURL (ecdLink access)) :=
    rfl
  rw [link]
  cases opened : env (.openURL (ecdLink access)) with
  | throws => simp [tokenRequest]
  | returns w =>
  simp only [ecdStore, await, Saga.prop, hasEmail, hasName, hasAccess, hasRefresh, ofOption_some,
    Prog.ret_bind, Prog.call_bind, Prog.tryCatch_call, Prog.run_call, redirectEnv_other
      (e := .set ("/users/" ++ key) (.object [("email", email), ("name", name),
        ("accessToken", access), ("refreshToken", refresh)])) rfl]
  unfold redirectPath pairRecord
  cases databaseEnv db env (.set ("/users/" ++ key) (.object [("email", email), ("name", name),
      ("accessToken", access), ("refreshToken", refresh)])) with
  | throws => simp [tokenRequest]
  | returns u => simp [tokenRequest]

end

/-! ## Atomicity -/

/-- Once the link is open, all that matters is what the record holds. -/
theorem refreshAtomic_of_opened {tr : Trace} {email name : Val} (access refresh w : Val)
    (issued : issuedPair tr = some (access, refresh))
    (link : (.openURL (ecdLink access), .returns w) ∈ tr) :
    RefreshAtomic base64 db key email name tr ↔
      (tr.leaves base64 db).atPath (segments (redirectPath key)) =
        pairRecord email name access refresh := by
  constructor
  · intro atomic
    rcases atomic with ⟨access', refresh', w', issued', -, left⟩ | ⟨closed, -⟩
    · cases issued.symm.trans issued'
      exact left
    · have opened : tr.opened = true := List.any_eq_true.mpr ⟨_, link, rfl⟩
      rw [opened] at closed
      cases closed
  · intro left
    exact Or.inl ⟨access, refresh, w, issued, link, left⟩

end

/-- **A refresh is atomic exactly when** it opens no link, or what it writes then is
what the record should hold. -/
theorem refreshAtomic_iff (base64 : String → String) (env : Eff → Answer) (reopened : Answer)
    (db user : Val) (key : String) (email name : Val)
    (refreshes : Refreshes base64 env db user key) :
    RefreshAtomic base64 db key email name
        (redirectTrace base64 (databaseEnv db env) reopened user) ↔
      refreshCompletes env db user key email name = true := by
  obtain ⟨v, access₀, trace⟩ := redirectTrace_refreshes reopened refreshes
  obtain ⟨userEmail, hasEmail, -⟩ := Option.bind_eq_some_iff.mp refreshes.named
  obtain ⟨userName, hasName⟩ := Val.prop_of_prop hasEmail "name"
  rw [trace]
  unfold refreshCompletes
  dsimp only
  generalize ((db.atPath (segments (redirectPath key))).prop "refreshToken").getD .undefined =
    refreshToken
  cases answered : answeredPair env refreshToken with
  | none =>
    refine iff_of_true (Or.inr ?_) rfl
    rw [run_unanswered answered]
    exact ⟨rfl, rfl⟩
  | some pair =>
  rcases pair with ⟨access, refresh⟩
  dsimp only
  obtain ⟨response, pair, steps⟩ := run_answered reopened db key
    [(.ref (redirectPath key), .returns v),
      (.value (redirectPath key), .returns (db.atPath (segments (redirectPath key)))),
      (.post (checkTokenUrl access₀) .null (checkTokenOpts base64), .throws)]
    rfl answered hasEmail hasName
  rw [steps]
  cases opened : env (.openURL (ecdLink access)) with
  | throws =>
    refine iff_of_true (Or.inr ?_) rfl
    exact ⟨rfl, rfl⟩
  | returns w =>
  simp only [Answer.failed_returns, Bool.false_eq_true, if_false, Bool.false_or, storesPair,
    hasEmail, hasName, Option.getD_some]
  rw [refreshAtomic_of_opened access refresh w]
  · cases stored : databaseEnv db env (.set (redirectPath key)
        (pairRecord userEmail userName access refresh)) with
    | throws =>
      rw [Answer.failed_throws, if_pos rfl, decide_eq_true_eq]
      rfl
    | returns u =>
      rw [Answer.failed_returns, if_neg Bool.false_ne_true, ← pairRecord_stored]
      simp only [Trace.leaves, cloud, tokenRequest, List.cons_append, List.nil_append,
        List.foldl_cons, List.foldl_nil, Val.atPath_setAt_self]
  · simp [issuedPair, tokenRequest, pair]
  · simp

/-! ## A response without a refresh token -/

/-- The server rejects the access token and answers the request for a new pair with
an access token only. -/
def halfEnv : Eff → Answer
  | .post url _ _ =>
      if url = "oauth/token" then
        .returns (.object [("data", .object [("access_token", .str "a1")])])
      else .throws
  | _ => .returns .undefined

def halfDatabase : Val :=
  .object [("users", .object [("ann@x,org", pairRecord (.str "ann@x.org") (.str "Ann") (.str "a0")
    (.str "r0"))])]

theorem refreshes_half : Refreshes base64Client halfEnv halfDatabase annUser "ann@x,org" where
  named := by decide
  referenced := rfl
  present := by decide
  rejected access hasAccess := by
    rw [halfEnv, if_neg (checkTokenUrl_ne access)]

theorem refreshAtomic_iff_half :
    RefreshAtomic base64Client halfDatabase "ann@x,org" (.str "ann@x.org") (.str "Ann")
        (redirectTrace base64Client (databaseEnv halfDatabase halfEnv) (.returns .undefined)
          annUser) ↔
      refreshCompletes halfEnv halfDatabase annUser "ann@x,org" (.str "ann@x.org") (.str "Ann") =
        true :=
  refreshAtomic_iff base64Client halfEnv (.returns .undefined) halfDatabase annUser "ann@x,org"
    (.str "ann@x.org") (.str "Ann") refreshes_half

/-- The link is opened with the new access token, and the record has the old one. -/
theorem not_refreshAtomic_half :
    ¬ RefreshAtomic base64Client halfDatabase "ann@x,org" (.str "ann@x.org") (.str "Ann")
      (redirectTrace base64Client (databaseEnv halfDatabase halfEnv) (.returns .undefined)
        annUser) := by
  intro atomic
  have issued : issuedPair (redirectTrace base64Client (databaseEnv halfDatabase halfEnv)
      (.returns .undefined) annUser) = some (.str "a1", .undefined) := by decide +kernel
  have left : (Trace.leaves base64Client halfDatabase (redirectTrace base64Client
      (databaseEnv halfDatabase halfEnv) (.returns .undefined) annUser)).atPath
        (segments (redirectPath "ann@x,org")) =
      pairRecord (.str "ann@x.org") (.str "Ann") (.str "a0") (.str "r0") := by decide +kernel
  rcases atomic with ⟨access, refresh, v, pair, -, stored⟩ | ⟨closed, -⟩
  · rw [issued] at pair
    cases pair
    rw [left] at stored
    exact absurd stored (by decide)
  · exact absurd closed (by decide +kernel)

end GAMember
