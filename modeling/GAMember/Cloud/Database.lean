import GAMember.Effects.Machine
import GAMember.Firebase.Tree
import GAMember.Saga.Points

/-!
# Runs over one shared database

`cloud` interleaves any number of saga runs, of any users on any devices, over
one database. Reads and writes are atomic: `once('value')` answers with the
subtree at its path, and `set` replaces it. Every call may throw as well; a `set`
must throw on a value that cannot be stored. What the Google SDK, the OAuth
server and the link opener answer is left open.
-/

namespace GAMember

open Saga

/-- The machine of all saga runs over the database. -/
def cloud (base64 : String → String) : Machine Val Request Eff Answer where
  prog := takeEvery base64
  begin db _ := db
  allows db e a :=
    match e, a with
    | .value path, .returns v => v = db.atPath (segments path)
    | .set _ v, .returns _ => v.storable
    | _, _ => true
  after db e a :=
    match e, a with
    | .set path v, .returns _ => db.setAt v.stored (segments path)
    | _, _ => db

/-- The record of a key. -/
def record (db : Val) (key : String) : Val := db.atPath ["users", key]

/-- The user has this email, or none that could name a record. -/
def Val.IsUser (email : String) (user : Val) : Prop :=
  ∀ s, user.prop "email" = some (.str s) → s = email

/-! ## What `ecdRedirect$` writes -/

/-- The token pair in the answer to a token request. -/
def tokenPair (response : Val) : Option (Val × Val) :=
  (response.prop "data").bind fun data =>
    (data.prop "access_token").bind fun access =>
      (data.prop "refresh_token").map fun refresh => (access, refresh)

/-- The pair the server has issued to a run. -/
def issuedPair (hist : Trace) : Option (Val × Val) :=
  hist.findSome? fun
    | (.post url _ _, .returns response) => if url = "oauth/token" then tokenPair response else none
    | _ => none

theorem issuedPair_append {past : Trace} (unissued : issuedPair past = none) (tail : Trace) :
    issuedPair (past ++ tail) = issuedPair tail := by
  unfold issuedPair at unissued ⊢
  rw [List.findSome?_append, unissued, Option.none_or]

/-- A write of `ecdRedirect$`: the record of its user is replaced, with the pair
the run has been issued. -/
def RedirectWrite (user : Val) (hist : Trace) (path : String) (v : Val) : Prop :=
  ∃ email name access refresh,
    user.prop "email" = some (.str email) ∧ path = "/users/" ++ replaceDots email ∧
    v = .object [("email", .str email), ("name", name), ("accessToken", access),
      ("refreshToken", refresh)] ∧
    issuedPair hist = some (access, refresh)

def RedirectWrites (user : Val) (hist : Trace) (rest : Saga Unit) : Prop :=
  ∀ path v, rest.head? = some (.set path v) → RedirectWrite user hist path v

section

variable {user : Val} {email : String} (hasEmail : user.prop "email" = some (.str email))

include hasEmail

theorem ecdRefresh_writes (params : List (String × Val)) {past : Trace}
    (unissued : issuedPair past = none) :
    Prog.Along (fun _ _ _ => True) (RedirectWrites user) past
      (ecdRefresh user (replaceDots email) params) := by
  simp only [ecdRefresh, ecdStore, await, Saga.prop, Prog.pure_eq, Prog.call_bind,
    Prog.tryCatch_call, Prog.along_call]
  refine ⟨by simp [RedirectWrites], fun a _ => ?_⟩
  cases a with
  | throws => simp [RedirectWrites]
  | returns response =>
  cases hasData : response.prop "data" with
  | none => simp [RedirectWrites, hasData]
  | some data =>
  cases hasAccess : data.prop "access_token" with
  | none => simp [RedirectWrites, hasData, hasAccess]
  | some access =>
  simp only [hasData, hasAccess, hasEmail, ofOption_some, Prog.ret_bind, Prog.tryCatch_call,
    Prog.along_call]
  refine ⟨by simp [RedirectWrites], fun a _ => ?_⟩
  cases a with
  | throws => simp [RedirectWrites]
  | returns _ =>
  cases hasName : user.prop "name" with
  | none => simp [RedirectWrites]
  | some name =>
  cases hasRefresh : data.prop "refresh_token" with
  | none => simp [RedirectWrites]
  | some refresh =>
  simp only [ofOption_some, Prog.ret_bind, Prog.tryCatch_call, Prog.along_call]
  refine ⟨fun path v here => ?_, fun a _ => ?_⟩
  · cases here
    refine ⟨email, name, access, refresh, hasEmail, rfl, rfl, ?_⟩
    rw [List.append_assoc, issuedPair_append unissued]
    simp [issuedPair, tokenPair, hasData, hasAccess, hasRefresh]
  · cases a <;> simp [RedirectWrites]

theorem ecdCallback_writes (base64 : String → String) {token refreshToken : Val}
    (readable : token.prop "refreshToken" = some refreshToken) {past : Trace}
    (unissued : issuedPair past = none) :
    Prog.Along (fun _ _ _ => True) (RedirectWrites user) past
      (ecdCallback base64 user (replaceDots email) token) := by
  cases truthy : token.truthy with
  | false => simp [ecdCallback, Saga.prop, readable, truthy, RedirectWrites]
  | true =>
  obtain ⟨accessToken, hasAccess⟩ := Val.prop_of_truthy truthy "accessToken"
  simp only [ecdCallback, Saga.prop, readable, hasAccess, truthy, await, ofOption_some, if_true,
    Prog.ret_bind, Prog.call_bind, Prog.tryCatch_call, Prog.along_call]
  have refreshed (past : Trace) (unissued : issuedPair past = none) :=
    ecdRefresh_writes hasEmail
      [("grant_type", .str "refresh_token"), ("refresh_token", refreshToken)] unissued
  -- the check of the stored token issues no pair, and the link does not either
  have still (a a' : Answer) : issuedPair (past ++ [(.post (checkTokenUrl accessToken) .null
      (checkTokenOpts base64), a)] ++ [(.openURL (ecdLink accessToken), a')]) = none := by
    rw [List.append_assoc, issuedPair_append unissued]
    cases a <;> simp [issuedPair, checkTokenUrl_ne]
  refine ⟨by simp [RedirectWrites], fun a _ => ?_⟩
  cases a with
  | throws => exact refreshed _ (issuedPair_append unissued _)
  | returns _ =>
    refine ⟨by simp [RedirectWrites], fun a _ => ?_⟩
    cases a with
    | throws => exact refreshed _ (still _ _)
    | returns _ => simp [RedirectWrites]

end

theorem ecdRedirect_writes (base64 : String → String) (user : Val) :
    Prog.Along (fun _ _ _ => True) (RedirectWrites user) [] (ecdRedirectSaga base64 user) := by
  refine ecdRedirect_along base64 user ?_ ?_
  · intro past rest quiet path v here
    cases quiet _ here
  · intro key v snapshot refreshToken named _ readable
    obtain ⟨email, hasEmail, escaped⟩ := Option.bind_eq_some_iff.mp named
    obtain ⟨email, rfl, rfl⟩ := Val.replaceDots_eq_some.mp escaped
    exact ecdCallback_writes hasEmail base64 readable rfl

/-! ## Writes in a run -/

/-- What a run started for a request writes. -/
def Request.Write (r : Request) (hist : Trace) (path : String) (v : Val) : Prop :=
  match r with
  | .login _ => LoginWrite hist path v
  | .ecdRedirect user => RedirectWrite user hist path v
  | _ => False

theorem takeEvery_writes (base64 : String → String) (r : Request) :
    Prog.Along (fun _ _ _ => True)
      (fun hist rest => ∀ path v, rest.head? = some (.set path v) → r.Write hist path v) []
      (takeEvery base64 r) := by
  cases r with
  | login navigation =>
      apply (login_points navigation).mono
      intro hist rest point path v here
      rw [here] at point
      exact write_of_point point
  | ecdRedirect user => exact ecdRedirect_writes base64 user
  | isLogged navigation =>
      apply (isLogged_points navigation).mono
      intro hist rest point path v here
      rw [here] at point
      cases point with
      | reading reads next => cases next
  | logout navigation =>
      apply (logout_points navigation).mono
      intro hist rest point path v here
      rw [here] at point
      cases point

section

variable {base64 : String → String} {db : Val} {ls : List (Label Request Eff Answer)}
  {c c' : Conf Val Request Eff Answer} {i : Nat} {path : String} {v w : Val}

/-- The run whose write a step applies to the database. -/
def writer? : Label Request Eff Answer → Option Nat
  | .act i (.set _ _) (.returns _) => some i
  | _ => none

/-- The step changes the database. -/
def Wrote (l : Label Request Eff Answer) : Bool := (writer? l).isSome

theorem wrote_iff {l : Label Request Eff Answer} :
    Wrote l = true ↔ ∃ i path v w, l = .act i (.set path v) (.returns w) := by
  constructor
  · intro wrote
    unfold Wrote writer? at wrote
    split at wrote
    · exact ⟨_, _, _, _, rfl⟩
    · cases wrote
  · intro act
    rcases act with ⟨i, path, v, w, rfl⟩
    rfl

/-- Only a write that succeeds changes the database. -/
theorem cloud_world {l : Label Request Eff Answer} (taken : (cloud base64).step c l = some c')
    (silent : Wrote l = false) : c'.world = c.world := by
  cases l with
  | start r =>
      cases taken
      rfl
  | act i e a =>
      obtain ⟨t, resume, -, -, -, rfl⟩ := Machine.step_act taken
      cases e with
      | set path v =>
          cases a with
          | returns w => cases silent
          | throws => rfl
      | _ => rfl

/-- What a write that succeeds does, and which run makes it. -/
theorem cloud_write (before : (cloud base64).run (.initial db) ls = some c)
    (taken : (cloud base64).step c (.act i (.set path v) (.returns w)) = some c') :
    ∃ t, c.thread? i = some t ∧ t.tag.Write t.hist path v ∧ v.storable = true ∧
      c'.world = c.world.setAt v.stored (segments path) := by
  obtain ⟨t, resume, here, rest, storable, rfl⟩ := Machine.step_act taken
  have along := Machine.thread_along_any (takeEvery_writes base64) before here
  exact ⟨t, here, along.here path v (by rw [rest]; rfl), storable, rfl⟩

end

/-! ## Records after a write -/

/-- The two tokens of a record. -/
def recordTokens (r : Val) : Val × Val := (r.child "accessToken", r.child "refreshToken")

theorem recordTokens_stored (email name access refresh : Val) :
    recordTokens (Val.object [("email", email), ("name", name), ("accessToken", access),
      ("refreshToken", refresh)]).stored = (access.stored, refresh.stored) := by
  simp only [recordTokens, Val.object, Fields.ofList_cons, Fields.ofList_nil, Val.stored_obj,
    Val.child, Val.fields_ofFields, Prod.mk.injEq]
  constructor
  · rw [Fields.find?_stored_cons_of_ne (by decide), Fields.find?_stored_cons_of_ne (by decide)]
    refine Fields.find?_stored_cons_self access ?_
    rw [Fields.find?_stored_cons_of_ne (by decide)]
    rfl
  · rw [Fields.find?_stored_cons_of_ne (by decide), Fields.find?_stored_cons_of_ne (by decide),
      Fields.find?_stored_cons_of_ne (by decide)]
    exact Fields.find?_stored_cons_self refresh rfl

theorem validKey_of_storable_loginUsers {key : String} {email name : Val}
    (storable : (loginUsers key email name).storable = true) : validKey key = true := by
  simp only [loginUsers, Val.object, Fields.ofList_cons, Val.storable, Val.validKeys,
    Fields.validKeys, Bool.and_eq_true] at storable
  exact storable.2.1.1

/-- The children of `/users` after a write of `login$`: nobody but the new user. -/
theorem child_loginUsers {key k : String} (other : key ≠ k) (email name : Val) :
    (loginUsers key email name).stored.child k = .null := by
  rw [loginUsers, Val.object, Fields.ofList_cons, Val.stored_obj, Val.child, Val.fields_ofFields,
    Fields.find?_stored_cons_of_ne other]
  rfl

theorem child_loginUsers_self {key : String} (email : String) (name : Val) :
    ((loginUsers key (.str email) name).stored.child key).truthy = true := by
  rw [loginUsers, Val.object, Fields.ofList_cons, Val.stored_obj, Val.child, Val.fields_ofFields,
    Fields.find?_stored_cons_self _ rfl]
  simp [Val.object, Fields.stored_cons, Val.ofFields]

end GAMember
