import GAMember.Saga.Portal

/-!
# How one run of `ecdRedirect$` ends

A run is made against an environment that fixes the outcome of every call. A
link may be opened twice in a run, once for the stored token and once for the
refreshed one, so the second attempt has an outcome of its own.

* `redirectReported_iff`: when the run reports its end to the store.
* `tokensVerified_iff`: when it only uses tokens the server stands for.
-/

namespace GAMember

open Saga

/-- The effect opens a link. -/
def Eff.opens : Eff → Bool
  | .openURL _ => true
  | _ => false

/-- Every call has the outcome `env` gives it, except that a second attempt to
open a link comes out as `reopened`. -/
def redirectEnv (env : Eff → Answer) (reopened : Answer) (past : Trace) (e : Eff) : Answer :=
  if e.opens && past.any fun step => step.1.opens then reopened else env e

/-- The complete trace of a run, with everything that is pending delivered. -/
def redirectTrace (base64 : String → String) (env : Eff → Answer) (reopened : Answer)
    (user : Val) : Trace :=
  (ecdRedirectSaga base64 user).run (redirectEnv env reopened) []

theorem redirectEnv_other {e : Eff} (other : e.opens = false) (env : Eff → Answer)
    (reopened : Answer) (past : Trace) : redirectEnv env reopened past e = env e := by
  simp [redirectEnv, other]

/-! ## Reporting the end of a run -/

/-- The link was opened in the run. -/
def Trace.opened (tr : Trace) : Bool := tr.any fun step => step.1.opens && !step.2.failed

/-- The run reports its end: one terminal action, the success exactly when the
link was opened, and after it the redirect is no longer in progress. -/
def RedirectReported (user : Val) (tr : Trace) : Prop :=
  (tr.terminals .ecdRedirect = [if tr.opened then .ecdRedirectSuccess else .ecdRedirectFail]) ∧
    ∀ state : RootState,
      (tr.dispatched.foldl RootState.reducer (state.reducer (.ecdRedirect user))).inProgress
        .ecdRedirect = false

/-- The key of the record `ecdRedirect$` reads; none where the user has no email
that can be escaped. -/
def redirectKey (user : Val) : Option String := (user.prop "email").bind Val.replaceDots

/-- The run fails inside the generator: there is no key, the database call
throws, or the promise of `once` is rejected, be it after a failed read or after
the callback met an absent record. -/
def redirectFailsEarly (env : Eff → Answer) (user : Val) : Bool :=
  match redirectKey user with
  | none => true
  | some key =>
      onceRejects env ("/users/" ++ key) fun token => (token.prop "refreshToken").isNone

section

variable (base64 : String → String) (env : Eff → Answer) (reopened : Answer) (user : Val)

/-- What `ecdRedirect$` dispatches: a failure where the generator fails, and
nothing at all otherwise. -/
theorem redirect_dispatched :
    (redirectTrace base64 env reopened user).dispatched =
      (if redirectFailsEarly env user then [.ecdRedirectFail] else []) ∧
    (redirectFailsEarly env user = true →
      (redirectTrace base64 env reopened user).opened = false) := by
  cases named : redirectKey user with
  | none =>
    simp [redirectFailsEarly, redirectTrace, ecdRedirectSaga_of_noKey base64 user named, named, put,
      Trace.opened, Eff.opens]
  | some key =>
  have early : redirectFailsEarly env user = onceRejects env ("/users/" ++ key)
      fun token => (token.prop "refreshToken").isNone := by rw [redirectFailsEarly, named]
  rw [early, redirectTrace, ecdRedirectSaga_of_key base64 user named]
  unfold onceRejects
  simp only [once, await, put, Prog.pure_eq, Prog.call_bind, Prog.tryCatch_call,
    Prog.run_call, redirectEnv_other (e := .ref ("/users/" ++ key)) rfl]
  cases referenced : env (.ref ("/users/" ++ key)) with
  | throws => simp [Trace.opened, Eff.opens]
  | returns _ =>
  simp only [Prog.ret_bind, Prog.tryCatch_call, Prog.run_call,
    redirectEnv_other (e := .value ("/users/" ++ key)) rfl]
  cases read : env (.value ("/users/" ++ key)) with
  | throws =>
    cases settled : env .settle <;>
      simp [redirectEnv_other (e := .settle) rfl, settled, Trace.opened, Eff.opens]
  | returns token =>
  cases readable : token.prop "refreshToken" with
  | none =>
    cases settled : env .settle <;>
      simp [ecdCallback, Saga.prop, readable, redirectEnv_other (e := .settle) rfl, settled,
        Trace.opened, Eff.opens]
  | some refreshToken =>
    have never := ecdCallback_neverThrows base64 user key token readable
    have silent : (ecdCallback base64 user key token).Avoids fun e => e.dispatched?.isSome :=
      ecdCallback_avoids base64 user key token (fun _ _ _ => rfl) (fun _ => rfl) fun _ _ => rfl
    simp only [never.tryCatch_eq]
    rw [Trace.dispatched_run silent]
    simp [readable]

/-- **`ecdRedirect$` reports its end exactly when it fails early.** -/
theorem redirectReported_iff :
    RedirectReported user (redirectTrace base64 env reopened user) ↔
      redirectFailsEarly env user = true := by
  obtain ⟨dispatched, closed⟩ := redirect_dispatched base64 env reopened user
  cases early : redirectFailsEarly env user with
  | true =>
    rw [early, if_pos rfl] at dispatched
    refine iff_of_true ⟨?_, fun state => ?_⟩ rfl
    · simp [Trace.terminals, dispatched, closed early, Action.family, Action.phase]
    · rw [dispatched]
      rfl
  | false =>
    rw [early] at dispatched
    refine iff_of_false (fun reported => ?_) (by simp)
    have terminals := reported.1
    simp [Trace.terminals, dispatched] at terminals

end

/-- A registered user with a valid token: every call succeeds. -/
def portalEnv : Eff → Answer
  | .value _ => .returns (.object [("email", .str "ann@x.org"), ("name", .str "Ann"),
      ("accessToken", .str "a1"), ("refreshToken", .str "r1")])
  | _ => .returns .undefined

/-- The link is opened and nothing is ever dispatched. -/
theorem not_redirectReported_opened :
    ¬ RedirectReported annUser
      (redirectTrace base64Client portalEnv (.returns .undefined) annUser) := by
  intro reported
  rcases reported with ⟨terminals, -⟩
  exact absurd terminals (by decide)

/-! ## Tokens the server stands for -/

/-- A `check_token` post for the token has been answered, not rejected. -/
def Trace.Accepts (tr : Trace) (token : String) : Prop :=
  ∃ data opts v, (Eff.post (checkTokenUrl (.str token)) data opts, Answer.returns v) ∈ tr

/-- The answer to a token request carried the token. -/
def Trace.Issues (tr : Trace) (token : String) : Prop :=
  ∃ body opts response, (Eff.post "oauth/token" body opts, Answer.returns response) ∈ tr ∧
    (response.prop "data").bind (·.prop "access_token") = some (.str token)

/-- The link carries a text token that the server accepted for the record or
issued in the trace. -/
def Vouched (record : Val) (tr : Trace) (url : String) : Prop :=
  ∃ token : String, url = ecdLink (.str token) ∧
    (record.prop "accessToken" = some (.str token) ∧ tr.Accepts token ∨ tr.Issues token)

/-- Every link the trace opens satisfies `P` with the part of it that came before. -/
def Trace.OpensWith (P : Trace → String → Prop) : Trace → Trace → Prop
  | _, [] => True
  | past, step :: rest =>
      (∀ url, step.1 = .openURL url → P past url) ∧ OpensWith P (past ++ [step]) rest

/-- The effect sends the literal text `undefined` to the server as a token. -/
def Eff.sendsUndefined : Eff → Bool
  | .post url data _ =>
      url = checkTokenUrl .undefined ||
        (url = "oauth/token" && data = .str (tokenBody
          [("grant_type", .str "refresh_token"), ("refresh_token", .undefined)]))
  | _ => false

def Val.lacks (record : Val) (key : String) : Bool := (record.prop key).getD .undefined = .undefined

/-- What a run has to do with the tokens of the record it read. -/
structure TokensVerified (record : Val) (tr : Trace) : Prop where
  once : (tr.filter fun step => step.1.opens).length ≤ 1
  vouched : Trace.OpensWith (Vouched record) [] tr
  noUndefined : record.lacks "accessToken" ∨ record.lacks "refreshToken" →
    ∀ step ∈ tr, step.1.sendsUndefined = false

/-- The environment `env` with the record that is read fixed. -/
def recordEnv (env : Eff → Answer) (record : Val) : Eff → Answer
  | .value _ => .returns record
  | e => env e

/-- The access token in the answer to the token request, where it can be read. -/
def issuedToken (env : Eff → Answer) (refreshToken : Val) : Option Val :=
  ((env (.post "oauth/token" (.str (tokenBody
      [("grant_type", .str "refresh_token"), ("refresh_token", refreshToken)])) tokenOpts)).prop
    "data").bind (·.prop "access_token")

def Val.isText : Val → Bool
  | .str _ => true
  | _ => false

/-- The record and the outcomes with which a run handles tokens properly. Nothing
is sent for a falsy record. Otherwise a record that lacks a token must not have
the text `undefined` for its access token; where the server accepts the access
token, it is a text, and no second link follows a failed first one; where the
server rejects it, there is a refresh token to send, and what the server issues
for it is a text if it can be read at all. -/
def verifiesTokens (base64 : String → String) (env : Eff → Answer) (user record : Val) : Bool :=
  match redirectKey user with
  | none => true
  | some key =>
      let access := (record.prop "accessToken").getD .undefined
      let refresh := (record.prop "refreshToken").getD .undefined
      (env (.ref ("/users/" ++ key))).failed || !record.truthy ||
        (!((record.lacks "accessToken" || record.lacks "refreshToken") &&
            access.toText = "undefined") &&
          match env (.post (checkTokenUrl access) .null (checkTokenOpts base64)) with
          | .returns _ =>
              access.isText && (!(env (.openURL (ecdLink access))).failed ||
                (refresh ≠ .undefined && (issuedToken env refresh).isNone))
          | .throws => refresh ≠ .undefined && (issuedToken env refresh).all Val.isText)

section

variable (env : Trace → Eff → Answer) (past : Trace) (user : Val) (key : String)
  (params : List (String × Val))

/-- After a link has been opened the refresh opens no other and sends nothing. -/
theorem ecdStore_quiet (data : Val) (a : Answer) :
    ((match a with
      | .returns v => .ret v
      | .throws => .thrown : Saga Val) >>= fun _ => ecdStore user key data).Avoids
      fun e => e.opens || e.sendsUndefined := by
  cases a with
  | returns v => exact ecdStore_avoids user key data fun _ _ => rfl
  | throws => trivial

/-- The refresh in a trace: the request, and where its answer holds an access
token the link with it, and nothing but a write to the database after that. -/
theorem run_ecdRefresh {e : Eff} {answer : Answer}
    (request : e = .post "oauth/token" (.str (tokenBody params)) tokenOpts)
    (given : env past e = answer) :
    match (answer.prop "data").bind (·.prop "access_token") with
    | none => (ecdRefresh user key params).run env past = past ++ [(e, answer)]
    | some token => ∃ a tail,
        (ecdRefresh user key params).run env past =
          past ++ (e, answer) :: (.openURL (ecdLink token), a) :: tail ∧
        ∀ step ∈ tail, (step.1.opens || step.1.sendsUndefined) = false := by
  subst request
  subst given
  simp only [ecdRefresh, await, Saga.prop, Prog.call_bind, Prog.tryCatch_call, Prog.run_call]
  cases env past (.post "oauth/token" (.str (tokenBody params)) tokenOpts) with
  | throws => simp
  | returns response =>
  cases hasData : response.prop "data" with
  | none => simp [hasData]
  | some data =>
  cases hasToken : data.prop "access_token" with
  | none => simp [hasData, hasToken]
  | some token =>
  simp only [Answer.prop_returns, hasData, hasToken, ofOption_some, Prog.ret_bind,
    Prog.tryCatch_call, Prog.run_call, Option.bind_some]
  generalize env (past ++ [_]) (.openURL (ecdLink token)) = opened
  obtain ⟨tail, trace, clean⟩ := Prog.Avoids.run_eq_append
    ((ecdStore_quiet user key data opened).tryCatch (Prog.avoids_ret _ ())) env
    (past ++ [_] ++ [_])
  refine ⟨opened, tail, trace.trans ?_, clean⟩
  rw [List.append_assoc, List.append_assoc]
  rfl

end

/-! ### Texts sent to the server -/

theorem checkTokenUrl_inj {token token' : Val} :
    checkTokenUrl token = checkTokenUrl token' ↔ token.toText = token'.toText :=
  String.append_right_inj _

@[simp] theorem sendsUndefined_checkToken (token data opts : Val) :
    (Eff.post (checkTokenUrl token) data opts).sendsUndefined =
      decide (token.toText = "undefined") := by
  simp [Eff.sendsUndefined, checkTokenUrl_inj, checkTokenUrl_ne]

@[simp] theorem sendsUndefined_openURL (url : String) :
    (Eff.openURL url).sendsUndefined = false := rfl

theorem Val.isText_iff {v : Val} : v.isText = true ↔ ∃ s, v = .str s := by
  cases v <;> simp [Val.isText]

theorem opensWith_of_quiet {P : Trace → String → Prop} {tr : Trace}
    (quiet : ∀ step ∈ tr, step.1.opens = false) (past : Trace) : Trace.OpensWith P past tr := by
  induction tr generalizing past with
  | nil => trivial
  | cons step tr ih =>
      refine ⟨fun url same => ?_, ih (fun s here => quiet s (List.mem_cons_of_mem _ here)) _⟩
      have closed := quiet step List.mem_cons_self
      rw [same] at closed
      cases closed

/-- A trace that opens nothing and sends nothing is in order. -/
theorem tokensVerified_of_quiet {record : Val} {tr : Trace}
    (quiet : ∀ step ∈ tr, (step.1.opens || step.1.sendsUndefined) = false) :
    TokensVerified record tr := by
  simp only [Bool.or_eq_false_iff] at quiet
  refine ⟨?_, opensWith_of_quiet (fun step here => (quiet step here).1) [], fun _ step here =>
    (quiet step here).2⟩
  rw [List.filter_eq_nil_iff.mpr fun step here => by simp [(quiet step here).1]]
  exact Nat.zero_le 1

theorem opensWith_append {P : Trace → String → Prop} {past tr tail : Trace} :
    Trace.OpensWith P past (tr ++ tail) ↔
      Trace.OpensWith P past tr ∧ Trace.OpensWith P (past ++ tr) tail := by
  induction tr generalizing past with
  | nil => simp [Trace.OpensWith]
  | cons step tr ih => simp [Trace.OpensWith, ih, and_assoc]

/-- What opens nothing and sends nothing may follow any trace. -/
theorem tokensVerified_append {record : Val} {tr tail : Trace}
    (quiet : ∀ step ∈ tail, (step.1.opens || step.1.sendsUndefined) = false) :
    TokensVerified record (tr ++ tail) ↔ TokensVerified record tr := by
  simp only [Bool.or_eq_false_iff] at quiet
  have closed : tail.filter (fun step => step.1.opens) = [] :=
    List.filter_eq_nil_iff.mpr fun step here => by simp [(quiet step here).1]
  constructor
  · intro verified
    rcases verified with ⟨once, vouched, noUndefined⟩
    rw [List.filter_append, closed, List.append_nil] at once
    exact ⟨once, (opensWith_append.mp vouched).1, fun lacks step here =>
      noUndefined lacks step (List.mem_append_left _ here)⟩
  · intro verified
    rcases verified with ⟨once, vouched, noUndefined⟩
    refine ⟨?_, opensWith_append.mpr ⟨vouched, ?_⟩, fun lacks step here => ?_⟩
    · rw [List.filter_append, closed, List.append_nil]
      exact once
    · exact opensWith_of_quiet (fun step here => (quiet step here).1) _
    · rcases List.mem_append.mp here with early | late
      · exact noUndefined lacks step early
      · exact (quiet step late).2

/-- After a part that opens and posts nothing, only the rest matters. -/
theorem tokensVerified_stem {record access refresh : Val} {stem rest : Trace}
    (hasAccess : record.prop "accessToken" = some access)
    (hasRefresh : record.prop "refreshToken" = some refresh)
    (quiet : ∀ step ∈ stem, (step.1.opens || step.1.sendsUndefined) = false) :
    TokensVerified record (stem ++ rest) ↔
      (rest.filter fun step => step.1.opens).length ≤ 1 ∧
        Trace.OpensWith (Vouched record) stem rest ∧
        (access = .undefined ∨ refresh = .undefined →
          ∀ step ∈ rest, step.1.sendsUndefined = false) := by
  simp only [Bool.or_eq_false_iff] at quiet
  have closed : stem.filter (fun step => step.1.opens) = [] :=
    List.filter_eq_nil_iff.mpr fun step here => by simp [(quiet step here).1]
  have lacks : record.lacks "accessToken" ∨ record.lacks "refreshToken" ↔
      access = .undefined ∨ refresh = .undefined := by
    simp [Val.lacks, hasAccess, hasRefresh]
  constructor
  · intro verified
    rcases verified with ⟨once, vouched, noUndefined⟩
    rw [List.filter_append, closed, List.nil_append] at once
    exact ⟨once, (opensWith_append.mp vouched).2, fun absent step here =>
      noUndefined (lacks.mpr absent) step (List.mem_append_right _ here)⟩
  · intro parts
    rcases parts with ⟨once, vouched, noUndefined⟩
    refine ⟨?_, opensWith_append.mpr ⟨?_, vouched⟩, fun absent step here => ?_⟩
    · rw [List.filter_append, closed, List.nil_append]
      exact once
    · exact opensWith_of_quiet (fun step here => (quiet step here).1) []
    · rcases List.mem_append.mp here with early | late
      · exact (quiet step early).2
      · exact noUndefined (lacks.mp absent) step late

/-- Where the refresh is requested, the text `undefined` stays unsent exactly
when there is a refresh token, and an access token that does not read so. -/
theorem unsent_iff (access refresh : Val) :
    ((access = .undefined ∨ refresh = .undefined) → access.toText ≠ "undefined" ∧
        (Eff.post "oauth/token" (.str (tokenBody
          [("grant_type", .str "refresh_token"), ("refresh_token", refresh)]))
          tokenOpts).sendsUndefined = false) ↔
      ¬((access = .undefined ∨ refresh = .undefined) ∧ access.toText = "undefined") ∧
        refresh ≠ .undefined := by
  constructor
  · intro unsent
    refine ⟨fun ⟨lacks, text⟩ => (unsent lacks).1 text, fun absent => ?_⟩
    have sent := (unsent (Or.inr absent)).2
    subst absent
    simp [Eff.sendsUndefined] at sent
  · intro readable lacks
    rcases readable with ⟨readable, present⟩
    rcases lacks with rfl | absent
    · exact absurd ⟨Or.inl rfl, rfl⟩ readable
    · exact absurd absent present

section

variable (record : Val) {past : Trace}

/-- An accepted access token is vouched for when it is a text. -/
theorem vouched_accepted (opts v : Val) {access : Val}
    (quiet : ∀ step ∈ past, ∀ body opts, step.1 ≠ .post "oauth/token" body opts)
    (field : record.prop "accessToken" = some access) :
    Vouched record (past ++ [(.post (checkTokenUrl access) .null opts, .returns v)])
      (ecdLink access) ↔ access.isText = true := by
  constructor
  · intro vouched
    rcases vouched with ⟨token, -, ⟨has, -⟩ | ⟨body, opts', response, issued, -⟩⟩
    · cases field.symm.trans has
      rfl
    · rcases List.mem_append.mp issued with early | last
      · exact absurd rfl (quiet _ early body opts')
      · simp only [List.mem_singleton, Prod.mk.injEq, Eff.post.injEq] at last
        exact absurd last.1.1.symm (checkTokenUrl_ne access)
  · intro text
    obtain ⟨token, rfl⟩ := Val.isText_iff.mp text
    exact ⟨token, rfl, Or.inl ⟨field, .null, opts, v, by simp⟩⟩

/-- An issued access token is vouched for when it is a text, provided nothing has
been accepted before. -/
theorem vouched_issued (body opts : Val) {response token : Val}
    (rejected : ∀ url data opts v, (Eff.post url data opts, Answer.returns v) ∉ past)
    (issued : (response.prop "data").bind (·.prop "access_token") = some token) :
    Vouched record (past ++ [(.post "oauth/token" body opts, .returns response)])
      (ecdLink token) ↔ token.isText = true := by
  constructor
  · intro vouched
    rcases vouched with
      ⟨text, -, ⟨-, data, opts', v, accepted⟩ | ⟨body', opts', response', request, holds⟩⟩
    · rcases List.mem_append.mp accepted with early | last
      · exact absurd early (rejected _ _ _ _)
      · simp only [List.mem_singleton, Prod.mk.injEq, Eff.post.injEq] at last
        exact absurd last.1.1 (checkTokenUrl_ne _)
    · rcases List.mem_append.mp request with early | last
      · exact absurd early (rejected _ _ _ _)
      · simp only [List.mem_singleton, Prod.mk.injEq, Answer.returns.injEq] at last
        rw [last.2, issued] at holds
        cases holds
        rfl
  · intro text
    obtain ⟨value, rfl⟩ := Val.isText_iff.mp text
    exact ⟨value, rfl, Or.inr ⟨body, opts, response, by simp, issued⟩⟩

end

/-! ### The theorem -/

section

variable (base64 : String → String) (env : Eff → Answer) (reopened : Answer) (user record : Val)

/-- The run up to the answer of the read. -/
theorem redirectTrace_read {key : String} (named : redirectKey user = some key) {v : Val}
    (referenced : env (.ref ("/users/" ++ key)) = .returns v)
    (read : env (.value ("/users/" ++ key)) = .returns record) :
    redirectTrace base64 env reopened user =
      (((ecdCallback base64 user key record).tryCatch (do let _ ← await .settle)).tryCatch
        (put .ecdRedirectFail)).run (redirectEnv env reopened)
        [(.ref ("/users/" ++ key), .returns v), (.value ("/users/" ++ key), .returns record)] := by
  rw [redirectTrace, ecdRedirectSaga_of_key base64 user named]
  simp [once, await, redirectEnv_other (e := .ref ("/users/" ++ key)) rfl,
    redirectEnv_other (e := .value ("/users/" ++ key)) rfl, referenced, read]

/-- Nothing is sent where no record is read, or where it is falsy. -/
theorem redirect_quiet (nothing : ∀ key, redirectKey user = some key →
      (env (.ref ("/users/" ++ key))).failed = true ∨ record.truthy = false) :
    TokensVerified record (redirectTrace base64 (recordEnv env record) reopened user) := by
  apply tokensVerified_of_quiet
  cases named : redirectKey user with
  | none =>
    simp [redirectTrace, ecdRedirectSaga_of_noKey base64 user named, put, Eff.opens,
      Eff.sendsUndefined]
  | some key =>
    cases referenced : env (.ref ("/users/" ++ key)) with
    | throws =>
      simp [redirectTrace, ecdRedirectSaga_of_key base64 user named, once, await, put,
        redirectEnv_other (e := .ref ("/users/" ++ key)) rfl, recordEnv, referenced, Eff.opens,
        Eff.sendsUndefined]
    | returns v =>
      have falsy : record.truthy = false := by simpa [referenced] using nothing key named
      have callback : (ecdCallback base64 user key record).Avoids
          fun e => e.opens || e.sendsUndefined := by
        refine (ofOption_avoids _).bind fun refreshToken => ?_
        rw [if_neg (by simp [falsy])]
        exact Prog.avoids_ret _ ()
      have settled : (do let _ ← await .settle : Saga Unit).Avoids
          fun e => e.opens || e.sendsUndefined :=
        (await_avoids rfl).bind fun _ => Prog.avoids_ret _ ()
      obtain ⟨tail, trace, clean⟩ := ((callback.tryCatch settled).tryCatch
        (put_avoids rfl : (put .ecdRedirectFail).Avoids _)).run_eq_append
        (redirectEnv (recordEnv env record) reopened)
        [(.ref ("/users/" ++ key), .returns v), (.value ("/users/" ++ key), .returns record)]
      rw [redirectTrace_read base64 (recordEnv env record) reopened user record named referenced
        rfl, trace]
      simpa [Eff.opens, Eff.sendsUndefined] using clean

/-- The run for a truthy record, from the callback on. -/
theorem redirectTrace_record {key : String} (named : redirectKey user = some key)
    {v access refresh : Val} (referenced : env (.ref ("/users/" ++ key)) = .returns v)
    (truthy : record.truthy = true) (hasAccess : record.prop "accessToken" = some access)
    (hasRefresh : record.prop "refreshToken" = some refresh) :
    redirectTrace base64 (recordEnv env record) reopened user =
      (Prog.tryCatch
        (do
          let _ ← await (.post (checkTokenUrl access) .null (checkTokenOpts base64))
          let _ ← await (.openURL (ecdLink access)))
        (ecdRefresh user key
          [("grant_type", .str "refresh_token"), ("refresh_token", refresh)])).run
        (redirectEnv (recordEnv env record) reopened)
        [(.ref ("/users/" ++ key), .returns v), (.value ("/users/" ++ key), .returns record)] := by
  have never := ecdCallback_neverThrows base64 user key record hasRefresh
  rw [redirectTrace_read base64 (recordEnv env record) reopened user record named referenced rfl,
    never.tryCatch_eq, never.tryCatch_eq]
  simp [ecdCallback, Saga.prop, hasAccess, hasRefresh, truthy]

/-- A trace in which nothing is opened and nothing posted. -/
def Trace.Idle (tr : Trace) : Prop :=
  ∀ step ∈ tr, step.1.opens = false ∧ ∀ url data opts, step.1 ≠ .post url data opts

theorem redirectEnv_opens {tr : Trace} (closed : tr.any (fun step => step.1.opens) = false)
    (url : String) : redirectEnv env reopened tr (.openURL url) = env (.openURL url) := by
  simp [redirectEnv, closed]

theorem Trace.Idle.quiet {tr : Trace} (idle : tr.Idle) :
    ∀ step ∈ tr, (step.1.opens || step.1.sendsUndefined) = false := by
  intro step here
  obtain ⟨closed, noPost⟩ := idle step here
  rw [closed, Bool.false_or]
  cases e : step.1 with
  | post url data opts => exact absurd e (noPost url data opts)
  | _ => rfl

section

variable {key : String} {stem : Trace} (idle : stem.Idle) {access refresh : Val}
  (hasAccess : record.prop "accessToken" = some access)
  (hasRefresh : record.prop "refreshToken" = some refresh)

include idle hasAccess hasRefresh

/-- The server rejects the access token: the refresh decides. -/
theorem tokensVerified_rejected {checkOpts : Val} :
    TokensVerified record
      ((ecdRefresh user key [("grant_type", .str "refresh_token"), ("refresh_token", refresh)]).run
        (redirectEnv env reopened)
        (stem ++ [(.post (checkTokenUrl access) .null checkOpts, .throws)])) ↔
      (¬((access = .undefined ∨ refresh = .undefined) ∧ access.toText = "undefined") ∧
        refresh ≠ .undefined) ∧ (issuedToken env refresh).all Val.isText = true := by
  have trace := run_ecdRefresh (redirectEnv env reopened)
    (stem ++ [(.post (checkTokenUrl access) .null checkOpts, .throws)]) user key
    [("grant_type", .str "refresh_token"), ("refresh_token", refresh)] rfl
    (redirectEnv_other rfl env reopened _)
  unfold issuedToken
  generalize env (.post "oauth/token" _ tokenOpts) = answer at trace ⊢
  cases issued : (answer.prop "data").bind (·.prop "access_token") with
  | none =>
    simp only [issued] at trace
    rw [trace, List.append_assoc, tokensVerified_stem hasAccess hasRefresh idle.quiet,
      ← unsent_iff access refresh]
    simp [Trace.OpensWith, Eff.opens]
  | some token =>
    simp only [issued] at trace
    rcases trace with ⟨a, tail, trace, clean⟩
    obtain ⟨response, rfl⟩ : ∃ response, answer = .returns response := by
      cases answer with
      | returns response => exact ⟨response, rfl⟩
      | throws => cases issued
    have rejected : ∀ url data opts v, (Eff.post url data opts, Answer.returns v) ∉
        stem ++ [(.post (checkTokenUrl access) .null checkOpts, .throws)] := by
      intro url data opts v here
      rcases List.mem_append.mp here with early | last
      · exact (idle _ early).2 url data opts rfl
      · simp at last
    have vouched := vouched_issued record (.str (tokenBody
      [("grant_type", .str "refresh_token"), ("refresh_token", refresh)])) tokenOpts
      rejected issued
    have split (tok opened : Eff × Answer) (check : Eff × Answer) :
        stem ++ [check] ++ tok :: opened :: tail = stem ++ [check, tok, opened] ++ tail := by simp
    rw [trace, split, tokensVerified_append clean,
      tokensVerified_stem hasAccess hasRefresh idle.quiet, ← unsent_iff access refresh]
    rw [Option.all_some, ← vouched]
    simp [Trace.OpensWith, Eff.opens, and_comm]

/-- The server accepts the access token: it is used, and a refresh comes only
after a failure to open the link. -/
theorem tokensVerified_accepted {checkOpts v : Val} :
    TokensVerified record
      ((Prog.tryCatch (do let _ ← await (.openURL (ecdLink access)))
        (ecdRefresh user key
          [("grant_type", .str "refresh_token"), ("refresh_token", refresh)])).run
        (redirectEnv env reopened)
        (stem ++ [(.post (checkTokenUrl access) .null checkOpts, .returns v)])) ↔
      ¬((access = .undefined ∨ refresh = .undefined) ∧ access.toText = "undefined") ∧
        access.isText = true ∧ ((env (.openURL (ecdLink access))).failed = false ∨
          refresh ≠ .undefined ∧ issuedToken env refresh = none) := by
  have closed : (stem ++ [((.post (checkTokenUrl access) .null checkOpts : Eff),
      Answer.returns v)]).any (fun step => step.1.opens) = false := by
    simpa [Eff.opens] using fun e a here => (idle (e, a) here).1
  have noRequest : ∀ step ∈ stem, ∀ body opts, step.1 ≠ .post "oauth/token" body opts :=
    fun step here => (idle step here).2 "oauth/token"
  have accepted := vouched_accepted record checkOpts v noRequest hasAccess
  simp only [await, Prog.call_bind, Prog.tryCatch_call, Prog.run_call,
    redirectEnv_opens env reopened closed]
  cases opened : env (.openURL (ecdLink access)) with
  | returns w =>
    simp only [Prog.ret_bind, Prog.pure_eq, Prog.tryCatch_ret, Prog.run_ret]
    rw [List.append_assoc, tokensVerified_stem hasAccess hasRefresh idle.quiet, ← accepted]
    simp [Trace.OpensWith, Eff.opens, and_comm]
  | throws =>
    simp only [Prog.thrown_bind, Prog.tryCatch_thrown]
    have trace := run_ecdRefresh (redirectEnv env reopened)
      (stem ++ [(.post (checkTokenUrl access) .null checkOpts, .returns v)] ++
        [(.openURL (ecdLink access), .throws)]) user key
      [("grant_type", .str "refresh_token"), ("refresh_token", refresh)] rfl
      (redirectEnv_other rfl env reopened _)
    unfold issuedToken
    generalize env (.post "oauth/token" _ tokenOpts) = answer at trace ⊢
    cases issued : (answer.prop "data").bind (·.prop "access_token") with
    | none =>
      simp only [issued] at trace
      have unsent := unsent_iff access refresh
      rw [trace, List.append_assoc, List.append_assoc,
        tokensVerified_stem hasAccess hasRefresh idle.quiet, ← accepted]
      simp only [ne_eq, not_and] at unsent
      simp [Trace.OpensWith, Eff.opens, unsent, and_left_comm]
    | some token =>
      simp only [issued] at trace
      rcases trace with ⟨a, tail, trace, -⟩
      rw [trace, List.append_assoc, List.append_assoc,
        tokensVerified_stem hasAccess hasRefresh idle.quiet]
      simp [Eff.opens]

end

/-- **When a run of `ecdRedirect$` handles tokens properly**, for every record and
every outcome of every call. -/
theorem tokensVerified_iff :
    TokensVerified record (redirectTrace base64 (recordEnv env record) reopened user) ↔
      verifiesTokens base64 env user record = true := by
  have quiet := redirect_quiet base64 env reopened user record
  unfold verifiesTokens
  cases named : redirectKey user with
  | none => exact iff_of_true (quiet (by simp [named])) rfl
  | some key =>
  cases referenced : env (.ref ("/users/" ++ key)) with
  | throws => exact iff_of_true (quiet (by simp [named, referenced])) (by simp [referenced])
  | returns v =>
  cases truthy : record.truthy with
  | false => exact iff_of_true (quiet (by simp [named, truthy])) (by simp)
  | true =>
  obtain ⟨access, hasAccess⟩ := Val.prop_of_truthy truthy "accessToken"
  obtain ⟨refresh, hasRefresh⟩ := Val.prop_of_truthy truthy "refreshToken"
  have idle : Trace.Idle [(.ref ("/users/" ++ key), .returns v),
      (.value ("/users/" ++ key), .returns record)] := by
    simp [Trace.Idle, Eff.opens]
  simp only [redirectTrace_record base64 env reopened user record named referenced truthy hasAccess
    hasRefresh, Val.lacks, hasAccess, hasRefresh, Option.getD_some, referenced,
    Answer.failed_returns, Bool.not_true, Bool.false_or, await, Prog.call_bind, Prog.tryCatch_call,
    Prog.run_call, redirectEnv_other
      (e := .post (checkTokenUrl access) .null (checkTokenOpts base64)) rfl]
  have sameEnv : recordEnv env record (.post (checkTokenUrl access) .null (checkTokenOpts base64)) =
    env (.post (checkTokenUrl access) .null (checkTokenOpts base64)) := rfl
  have sameToken : issuedToken (recordEnv env record) refresh = issuedToken env refresh := rfl
  have sameLink : recordEnv env record (.openURL (ecdLink access)) =
    env (.openURL (ecdLink access)) := rfl
  -- the two ways to say that a lacking record does not have the text `undefined`
  have readable (a b t : Prop) : (a ∨ b → ¬t) ↔ (¬a ∧ ¬b ∨ ¬t) := by tauto
  rw [sameEnv]
  cases checked : env (.post (checkTokenUrl access) .null (checkTokenOpts base64)) with
  | throws =>
    refine (tokensVerified_rejected (recordEnv env record) reopened user record idle hasAccess
      hasRefresh).trans ?_
    simp [sameToken, readable, and_assoc]
  | returns w =>
    refine (tokensVerified_accepted (recordEnv env record) reopened user record idle hasAccess
      hasRefresh).trans ?_
    simp [sameToken, sameLink, readable]

end

/-- A record as `login$` creates it. -/
def newRecord : Val := .object [("email", .str "ann@x.org"), ("name", .str "Ann")]

/-- The server rejects every token it is sent. -/
def rejectingEnv : Eff → Answer
  | .post _ _ _ => .throws
  | _ => .returns .undefined

/-- For a new user the app checks the token `undefined`. -/
theorem not_tokensVerified_newUser :
    ¬ TokensVerified newRecord
      (redirectTrace base64Client (recordEnv rejectingEnv newRecord) (.returns .undefined)
        annUser) := by
  intro verified
  rcases verified with ⟨-, -, noUndefined⟩
  have check := noUndefined (by decide)
    (.post "oauth/check_token?token=undefined" .null (checkTokenOpts base64Client), .throws)
    (by decide)
  exact absurd check (by decide)

end GAMember
