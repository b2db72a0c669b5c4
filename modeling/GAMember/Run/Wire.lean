import GAMember.Http.Attempts
import GAMember.Run.Portal
import GAMember.Saga.Points

/-!
# The sagas on the wire

A saga sees one answer to a post, the server sees the attempts behind it. Here
the sagas run on the wire, with the exported client in the place of `post`.

* `takeEvery_wired`: a run on the wire is a run of the saga, each of whose posts
  is answered by the last of its attempts.
* `redirect_attempts`, `redirect_opens`: what `ecdRedirect$` sends, and what it
  was answered before it opens the link.
-/

namespace GAMember

open Saga

/-! ## What leaves the app -/

/-- The effect is a post. -/
def Eff.posts : Eff → Bool
  | .post _ _ _ => true
  | _ => false

/-- The effect is a post or opens a link. -/
def Eff.goesOut (e : Eff) : Bool := e.posts || e.opens

theorem goesOut_of_posts {e : Eff} (posts : e.posts = true) : e.goesOut = true := by
  rw [Eff.goesOut, posts, Bool.true_or]

/-- The `check_token` post of an access token. -/
def checkPost (base64 : String → String) (access : Val) : Eff :=
  .post (checkTokenUrl access) .null (checkTokenOpts base64)

/-- The post that asks for a new pair. -/
def refreshPost (refresh : Val) : Eff :=
  .post "oauth/token" (.str (tokenBody [("grant_type", .str "refresh_token"),
    ("refresh_token", refresh)])) tokenOpts

/-- The record gives the two tokens. -/
def Val.gives (record access refresh : Val) : Prop :=
  record.prop "accessToken" = some access ∧ record.prop "refreshToken" = some refresh

/-- The response gives a new access token. -/
def Val.issues (response token : Val) : Prop :=
  ∃ data, response.prop "data" = some data ∧ data.prop "access_token" = some token

/-- The check was answered by `a`, and it or the opening of the link failed. -/
def Refused (access : Val) (a : Answer) (mid : Trace) : Prop :=
  (a = .throws ∧ mid = []) ∨
    ∃ v, a = .returns v ∧ mid = [(.openURL (ecdLink access), .throws)]

/-- A post or a link that comes next, after what has happened in the run. -/
inductive RedirectPoint (base64 : String → String) : Trace → Eff → Prop
  | check {path : String} {v : Answer} {record access refresh : Val} :
    record.gives access refresh →
    RedirectPoint base64 [(.ref path, v), (.value path, .returns record)] (checkPost base64 access)
  | refresh {path : String} {v : Answer} {record access refresh : Val} {a : Answer} {mid : Trace} :
    record.gives access refresh → Refused access a mid →
    RedirectPoint base64 ([(.ref path, v), (.value path, .returns record)] ++
      (checkPost base64 access, a) :: mid) (refreshPost refresh)
  | openStored {before : Trace} {v access : Val} :
    RedirectPoint base64 (before ++ [(checkPost base64 access, .returns v)])
      (.openURL (ecdLink access))
  | openIssued {before : Trace} {refresh response token : Val} : response.issues token →
    RedirectPoint base64 (before ++ [(refreshPost refresh, .returns response)])
      (.openURL (ecdLink token))

/-- Wherever the saga stands at a post or a link, it is at one of these points. -/
def AtRedirect (base64 : String → String) (hist : Trace) (rest : Saga Unit) : Prop :=
  ∀ e, rest.head? = some e → e.goesOut = true → RedirectPoint base64 hist e

section

variable (base64 : String → String) (user : Val)

theorem atRedirect_of_quiet {hist : Trace} {rest : Saga Unit}
    (quiet : ∀ e, rest.head? = some e → e.goesOut = false) : AtRedirect base64 hist rest := by
  intro e here goesOut
  rw [quiet e here] at goesOut
  cases goesOut

/-- The refresh posts at its beginning, and opens a link with what it was issued. -/
theorem ecdRefresh_points {hist : Trace} {key : String} {refresh : Val}
    (point : RedirectPoint base64 hist (refreshPost refresh)) :
    Prog.Along (fun _ _ _ => True) (AtRedirect base64) hist
      (ecdRefresh user key [("grant_type", .str "refresh_token"), ("refresh_token", refresh)]) := by
  simp only [ecdRefresh, await, Saga.prop, Prog.call_bind, Prog.tryCatch_call, Prog.along_call]
  refine ⟨fun e here _ => ?_, fun a _ => ?_⟩
  · cases here
    exact point
  cases a with
  | throws => exact atRedirect_of_quiet base64 fun e here => by cases here
  | returns response =>
  cases body : response.prop "data" with
  | none =>
    simp only [body, ofOption_none, Prog.ret_bind, Prog.thrown_bind, Prog.tryCatch_thrown]
    exact atRedirect_of_quiet base64 fun e here => by cases here
  | some data =>
  cases issued : data.prop "access_token" with
  | none =>
    simp only [body, issued, ofOption_some, ofOption_none, Prog.ret_bind, Prog.thrown_bind,
      Prog.tryCatch_thrown]
    exact atRedirect_of_quiet base64 fun e here => by cases here
  | some token =>
  simp only [body, issued, ofOption_some, Prog.ret_bind, Prog.tryCatch_call, Prog.along_call]
  refine ⟨fun e here _ => ?_, fun opened _ => ?_⟩
  · cases here
    exact .openIssued ⟨data, body, issued⟩
  · cases opened with
    | throws => exact atRedirect_of_quiet base64 fun e here => by cases here
    | returns _ =>
      have storing : ((ecdStore user key data).tryCatch (pure ())).Avoids Eff.goesOut :=
        (ecdStore_avoids user key data fun _ _ => rfl).tryCatch (Prog.avoids_ret _ ())
      exact storing.along_head (fun past rest quiet => atRedirect_of_quiet base64 quiet) _

theorem ecdRedirect_points : Prog.Along (fun _ _ _ => True) (AtRedirect base64) []
    (ecdRedirectSaga base64 user) := by
  refine ecdRedirect_along base64 user (fun past rest quiet => ?_)
    fun key v record refresh named _ readable => ?_
  · refine atRedirect_of_quiet base64 fun e here => ?_
    have outside := quiet e here
    cases e <;> first | rfl | cases outside
  unfold ecdCallback Saga.prop
  rw [readable, ofOption_some, Prog.ret_bind]
  cases truthy : record.truthy with
  | false => exact atRedirect_of_quiet base64 fun e here => by cases here
  | true =>
  obtain ⟨access, field⟩ := Val.prop_of_truthy truthy "accessToken"
  rw [if_pos rfl, field, ofOption_some, Prog.ret_bind]
  have gives : record.gives access refresh := ⟨field, readable⟩
  refine ⟨fun e here _ => ?_, fun a _ => ?_⟩
  · cases here
    exact .check gives
  cases a with
  | throws => exact ecdRefresh_points base64 user (.refresh gives (Or.inl ⟨rfl, rfl⟩))
  | returns checked =>
    refine ⟨fun e here _ => ?_, fun opened _ => ?_⟩
    · cases here
      exact @RedirectPoint.openStored base64 [_, _] _ _
    cases opened with
    | returns _ => exact atRedirect_of_quiet base64 fun e here => by cases here
    | throws => exact ecdRefresh_points base64 user (.refresh gives (Or.inr ⟨checked, rfl, rfl⟩))

/-- Only `ecdRedirect$` posts or opens a link. -/
theorem goesOut_of_point {r : Request} {hist : Trace} {e : Eff} (point : r.Point hist (some e))
    (other : ∀ user, r ≠ .ecdRedirect user) : e.goesOut = false := by
  have reads (reading : e.readsDatabase = true ∨ e.readsSdk = true) : e.goesOut = false := by
    cases e <;> first | rfl | simp [Eff.readsDatabase, Eff.readsSdk] at reading
  cases r with
  | ecdRedirect user => exact absurd rfl (other user)
  | login navigation =>
    cases point with
    | database stored shown next =>
      rcases next with database | rfl
      · exact reads (Or.inl database)
      · rfl
    | start | refused | signedIn | stored | writing => rfl
  | isLogged navigation =>
    cases point with
    | reading past sdk => exact reads (Or.inr sdk)
    | refused | nobody | found | stored | shown | notShown => rfl
  | logout navigation => cases point <;> rfl

theorem takeEvery_redirect (r : Request) : Prog.Along (fun _ _ _ => True) (AtRedirect base64) []
    (takeEvery base64 r) := by
  have outside (other : ∀ user, r ≠ .ecdRedirect user) : Prog.Along (fun _ _ _ => True)
      (AtRedirect base64) [] (takeEvery base64 r) :=
    (takeEvery_points base64 r).mono fun hist rest point =>
      atRedirect_of_quiet base64 fun e here => goesOut_of_point (here ▸ point) other
  cases r with
  | ecdRedirect user => exact ecdRedirect_points base64 user
  | login navigation => exact outside (by simp)
  | isLogged navigation => exact outside (by simp)
  | logout navigation => exact outside (by simp)

end

/-! ## A run on the wire -/

/-- The trace, and what of it the wire has seen. -/
inductive Wired (axios : Axios) : Trace → List (Wire × HttpAnswer) → Prop
  | nil : Wired axios [] []
  | post {url : String} {data opts : Val} {a : HttpAnswer} {tries wires : List (Wire × HttpAnswer)}
      {tr : Trace} :
    Tries (firstAttempt axios url data opts) 2 tries a → Wired axios tr wires →
    Wired axios ((.post url data opts, a.settles) :: tr) (tries ++ wires)
  | effect {e : Eff} {a : HttpAnswer} {wires : List (Wire × HttpAnswer)} {tr : Trace} :
    e.posts = false → Wired axios tr wires →
    Wired axios ((e, a.settles) :: tr) ((.effect e, a) :: wires)

/-- What the wire has seen of the effect that comes next: nothing, or some
attempts of a post, none of them answered but by a server error. -/
inductive UnderWay (axios : Axios) : Option Eff → List (Wire × HttpAnswer) → Prop
  | idle (next : Option Eff) : UnderWay axios next []
  | post {url : String} {data opts : Val} {tries : List (Wire × HttpAnswer)} :
    tries.length ≤ 2 → Unanswered (firstAttempt axios url data opts) tries →
    UnderWay axios (some (.post url data opts)) tries

section

variable {axios : Axios} {base64 : String → String} {hist : Trace} {url : String} {data opts : Val}

/-- A post of a saga has no retry count of its own. -/
theorem RedirectPoint.fresh (point : RedirectPoint base64 hist (.post url data opts)) :
    (requestOptions (.str "POST") (.str url) data opts).own.find? "__retryCount" = none := by
  rw [find?_requestOptions (by decide)]
  cases point with
  | check gives => rfl
  | refresh gives refused => rfl

/-- The attempts of a post of a saga. -/
theorem leads_post {wires : List (Wire × HttpAnswer)} {rest : Prog Wire HttpAnswer Answer}
    (point : RedirectPoint base64 hist (.post url data opts))
    (leads : Prog.Leads (perform axios (.post url data opts)) wires rest) :
    (∃ a, rest = .ret a.settles ∧ Tries (firstAttempt axios url data opts) 2 wires a) ∨
      (UnderWay axios (some (.post url data opts)) wires ∧ rest.finished = false) := by
  rw [perform_post] at leads
  rcases leads_attempts (follows_first point.fresh) rfl leads with
    answered | ⟨few, unanswered, config, resume, rfl, -⟩
  · exact Or.inl answered
  · exact Or.inr ⟨.post few unanswered, rfl⟩

theorem perform_effect {e : Eff} (other : e.posts = false) :
    perform axios e = .call (.effect e) fun a => .ret a.settles := by
  cases e <;> first | rfl | cases other

theorem leads_effect {e : Eff} (other : e.posts = false) {wires : List (Wire × HttpAnswer)}
    {rest : Prog Wire HttpAnswer Answer} (leads : Prog.Leads (perform axios e) wires rest) :
    (∃ a, rest = .ret a.settles ∧ wires = [(.effect e, a)]) ∨
      (wires = [] ∧ rest.finished = false) := by
  rw [perform_effect other] at leads
  rcases leads.of_call with ⟨rfl, rfl⟩ | ⟨a, tail, rfl, after⟩
  · exact Or.inr ⟨rfl, rfl⟩
  · obtain ⟨rfl, rfl⟩ := after.of_finished rfl
    exact Or.inl ⟨a, rfl, rfl⟩

variable {p q : Saga Unit} {past tr : Trace} {wires : List (Wire × HttpAnswer)}

/-- What the wire has performed of a run. -/
theorem wired_of_expands
    (along : Prog.Along (fun _ _ _ => True)
      (AtRedirect base64) past p)
    (leads : Prog.Leads p tr q) (expands : Prog.Expands (perform axios) tr wires) :
    Wired axios tr wires := by
  induction leads generalizing past wires with
  | refl p =>
    cases expands
    exact .nil
  | @step e resume a tr q rest ih =>
    cases expands with
    | cons answered tail =>
    have wired := ih (along.next trivial) tail
    cases posts : e.posts with
    | false =>
      rcases leads_effect posts answered with ⟨b, same, rfl⟩ | ⟨-, unfinished⟩
      · cases same
        exact .effect posts wired
      · cases unfinished
    | true =>
      have point := along.here e rfl (goesOut_of_posts posts)
      cases e <;> cases posts
      rcases leads_post point answered with ⟨b, same, tries⟩ | ⟨-, unfinished⟩
      · cases same
        exact .post tries wired
      · cases unfinished

/-- What the wire has seen of the effect a run stands at. -/
theorem underWay_of_performing {rest : Prog Wire HttpAnswer Unit}
    (along : Prog.Along (fun _ _ _ => True)
      (AtRedirect base64) past q)
    (performing : Prog.Performing (perform axios) q wires rest) :
    UnderWay axios q.head? wires ∧ rest.finished = q.finished := by
  cases performing with
  | ended finished =>
    refine ⟨.idle _, ?_⟩
    cases q with
    | call e resume => cases finished
    | ret r | thrown => rfl
  | @inside e resume wires h leads unanswered =>
    have stands : UnderWay axios (some e) wires ∧ h.finished = false := by
      cases posts : e.posts with
      | false =>
        rcases leads_effect posts leads with ⟨b, rfl, -⟩ | ⟨rfl, unfinished⟩
        · exact absurd rfl (unanswered _)
        · exact ⟨.idle _, unfinished⟩
      | true =>
        have point := along.here e rfl (goesOut_of_posts posts)
        cases e <;> cases posts
        rcases leads_post point leads with ⟨b, rfl, -⟩ | waiting
        · exact absurd rfl (unanswered _)
        · exact waiting
    refine ⟨stands.1, ?_⟩
    cases h with
    | call e' resume' => rfl
    | ret r | thrown => cases stands.2

/-- An answer that settles a promise as given, other than by a server error. -/
theorem exists_settles (a : Answer) : ∃ b : HttpAnswer, b.serverError = false ∧ b.settles = a := by
  cases a with
  | returns v => exact ⟨.success v, rfl, rfl⟩
  | throws => exact ⟨.failure none, rfl, rfl⟩

/-- Every run of a saga is one on the wire. -/
theorem exists_wired (axios : Axios) (leads : Prog.Leads p tr q) :
    ∃ wires, Wired axios tr wires ∧
      Prog.Leads (p.interpret (perform axios)) wires (q.interpret (perform axios)) := by
  induction leads with
  | refl p => exact ⟨[], .nil, .refl _⟩
  | @step e resume a tr q rest ih =>
    obtain ⟨wires, wired, along⟩ := ih
    obtain ⟨b, noError, rfl⟩ := exists_settles a
    cases posts : e.posts with
    | false =>
      refine ⟨(.effect e, b) :: wires, .effect posts wired, ?_⟩
      rw [Prog.interpret_call, perform_effect posts]
      exact .step along
    | true =>
      cases e <;> cases posts
      rename_i url data opts
      refine ⟨_ :: wires, .post (.last (fun _ _ => rfl) (Or.inl noError)) wired, ?_⟩
      rw [Prog.interpret_call, perform_post]
      exact ((attempts_answered axios serviceClient 2 _ noError).bind _).trans along

end

/-- What the wire sees of a run of a saga. -/
theorem exists_run (axios : Axios) {base64 : String → String} {r : Request}
    {wires : List (Wire × HttpAnswer)} {rest : Prog Wire HttpAnswer Unit}
    (leads : Prog.Leads ((takeEvery base64 r).interpret (perform axios)) wires rest) :
    ∃ tr q done tries, wires = done ++ tries ∧ Prog.Leads (takeEvery base64 r) tr q ∧
      Wired axios tr done ∧ UnderWay axios q.head? tries ∧ rest.finished = q.finished := by
  obtain ⟨tr, q, done, tries, rfl, follows, expands, performing⟩ := Prog.leads_interpret leads
  have along := takeEvery_redirect base64 r
  have wired := wired_of_expands along follows expands
  obtain ⟨underWay, ended⟩ := underWay_of_performing (along.after follows) performing
  exact ⟨tr, q, done, tries, rfl, follows, wired, underWay, ended⟩

/-- **A saga on the wire.** What the wire sees of a run is a run of the saga, each
post answered by the last of its attempts; and every run of a saga is seen so. -/
theorem takeEvery_wired (axios : Axios) (base64 : String → String) (r : Request) :
    (∀ wires rest, Prog.Leads ((takeEvery base64 r).interpret (perform axios)) wires rest →
      ∃ tr q done tries, wires = done ++ tries ∧ Prog.Leads (takeEvery base64 r) tr q ∧
        Wired axios tr done ∧ UnderWay axios q.head? tries ∧ rest.finished = q.finished) ∧
    ∀ tr q, Prog.Leads (takeEvery base64 r) tr q →
      ∃ wires, Wired axios tr wires ∧ Prog.Leads ((takeEvery base64 r).interpret (perform axios))
        wires (q.interpret (perform axios)) :=
  ⟨fun _ _ leads => exists_run axios leads, fun _ _ leads => exists_wired axios leads⟩

/-! ## What `ecdRedirect$` sends -/

/-- A post and what follows it, in a run with at most one refresh. -/
inductive Posted (base64 : String → String) : Trace → Prop
  | none {tr : Trace} : tr.all (fun step => !step.1.posts) = true → Posted base64 tr
  | checked {path : String} {v a : Answer} {record access refresh : Val} {tail : Trace} :
    record.gives access refresh → tail.all (fun step => !step.1.posts) = true →
    Posted base64 ([(.ref path, v), (.value path, .returns record)] ++
      (checkPost base64 access, a) :: tail)
  | refreshed {path : String} {v a b : Answer} {record access refresh : Val} {mid tail : Trace} :
    record.gives access refresh → Refused access a mid →
    tail.all (fun step => !step.1.posts) = true →
    Posted base64 ([(.ref path, v), (.value path, .returns record)] ++
      (checkPost base64 access, a) :: mid ++ (refreshPost refresh, b) :: tail)

theorem Posted.concat {base64 : String → String} {tr : Trace} {e : Eff} {a : Answer}
    (posted : Posted base64 tr) (other : e.posts = false) : Posted base64 (tr ++ [(e, a)]) := by
  have more {tail : Trace} (clean : tail.all (fun step => !step.1.posts) = true) :
      (tail ++ [(e, a)]).all (fun step => !step.1.posts) = true := by
    simp [List.all_append, clean, other]
  cases posted with
  | none clean => exact .none (more clean)
  | checked gives clean => exact .checked gives (more clean)
  | refreshed gives refused clean =>
    rw [List.append_assoc, List.cons_append]
    exact .refreshed gives refused (more clean)

/-- The posts of any run of a saga. -/
theorem posted_of_leads {base64 : String → String} {r : Request} {tr : Trace} {q : Saga Unit}
    (leads : Prog.Leads (takeEvery base64 r) tr q) : Posted base64 tr := by
  induction tr using List.reverseRecOn generalizing q with
  | nil => exact .none rfl
  | append_singleton tr step ih =>
    obtain ⟨resume, before, -⟩ := leads.of_concat
    cases posts : step.1.posts with
    | false => exact (ih before).concat posts
    | true =>
      have point := (takeEvery_redirect base64 r).of_leads before step.1 rfl
        (goesOut_of_posts posts)
      rcases step with ⟨e, a⟩
      cases point with
      | check gives => exact .checked gives rfl
      | refresh gives refused => exact .refreshed gives refused rfl
      | openStored | openIssued issues => cases posts

/-- The attempts among the steps of the wire. -/
def attemptsOf (wires : List (Wire × HttpAnswer)) : List (Wire × HttpAnswer) :=
  wires.filter fun step => match step.1 with
    | .send _ => true
    | .effect _ => false

/-- The attempts of a post: it has been answered, or not yet. -/
def Attempted (first : Fields) (tries : List (Wire × HttpAnswer)) : Prop :=
  (∃ a, Tries first 2 tries a) ∨ (tries.length ≤ 2 ∧ Unanswered first tries)

/-- The first attempt of a check, and of a refresh. -/
def firstCheck (axios : Axios) (base64 : String → String) (access : Val) : Fields :=
  firstAttempt axios (checkTokenUrl access) .null (checkTokenOpts base64)

def firstRefresh (axios : Axios) (refresh : Val) : Fields :=
  firstAttempt axios "oauth/token" (.str (tokenBody [("grant_type", .str "refresh_token"),
    ("refresh_token", refresh)])) tokenOpts

/-- What a run has sent: the attempts to check the access token of the record it
read, and then the attempts to refresh the pair with the refresh token of the same
record. The refresh was only asked for once the check had been settled, by a
failure, or by a success after which the link could not be opened. -/
structure RedirectSent (axios : Axios) (base64 : String → String)
    (wires checks refreshes : List (Wire × HttpAnswer)) (record access refresh : Val) : Prop where
  read : ∃ path, (.effect (.value path), .success record) ∈ wires
  gives : record.gives access refresh
  checked : Attempted (firstCheck axios base64 access) checks
  refreshed : Attempted (firstRefresh axios refresh) refreshes
  refused : refreshes ≠ [] → ∃ a, Tries (firstCheck axios base64 access) 2 checks a ∧
    (a.settles = .throws ∨
      ∃ b, (.effect (.openURL (ecdLink access)), b) ∈ wires ∧ b.settles = .throws)

section

variable {axios : Axios} {e : Eff} {a : Answer} {tr tr' : Trace}
  {wires tries : List (Wire × HttpAnswer)}

@[simp] theorem attemptsOf_append (wires wires' : List (Wire × HttpAnswer)) :
    attemptsOf (wires ++ wires') = attemptsOf wires ++ attemptsOf wires' :=
  List.filter_append ..

theorem attemptsOf_effect (e : Eff) (b : HttpAnswer) (wires : List (Wire × HttpAnswer)) :
    attemptsOf ((.effect e, b) :: wires) = attemptsOf wires := rfl

/-- Steps that are all attempts. -/
theorem attemptsOf_eq_self (sends : ∀ step ∈ wires, ∃ config, step.1 = .send config) :
    attemptsOf wires = wires := by
  refine List.filter_eq_self.mpr fun step here => ?_
  obtain ⟨config, same⟩ := sends step here
  rw [same]

theorem Tries.attemptsOf_eq {first : Fields} {left : ℕ} {b : HttpAnswer}
    (all : Tries first left tries b) : attemptsOf tries = tries :=
  attemptsOf_eq_self fun step here => (all.alike step here).imp fun _ => And.left

theorem Unanswered.attemptsOf_eq {first : Fields} (all : Unanswered first tries) :
    attemptsOf tries = tries :=
  attemptsOf_eq_self fun step here => (all step here).2.imp fun _ => And.left

theorem Wired.of_effect (wired : Wired axios ((e, a) :: tr) wires) (other : e.posts = false) :
    ∃ b rest, wires = (.effect e, b) :: rest ∧ a = b.settles ∧ Wired axios tr rest := by
  cases wired with
  | post _ _ => cases other
  | effect _ rest => exact ⟨_, _, rfl, rfl, rest⟩

theorem Wired.of_post {url : String} {data opts : Val}
    (wired : Wired axios ((.post url data opts, a) :: tr) wires) :
    ∃ b tries rest, wires = tries ++ rest ∧ a = b.settles ∧
      Tries (firstAttempt axios url data opts) 2 tries b ∧ Wired axios tr rest := by
  cases wired with
  | post all rest => exact ⟨_, _, _, rfl, rfl, all, rest⟩
  | effect other _ => cases other

theorem Wired.of_append (wired : Wired axios (tr ++ tr') wires) :
    ∃ w w', wires = w ++ w' ∧ Wired axios tr w ∧ Wired axios tr' w' := by
  induction tr generalizing wires with
  | nil => exact ⟨[], wires, rfl, .nil, wired⟩
  | cons step tr ih =>
    cases wired with
    | post all rest =>
      obtain ⟨w, w', rfl, first, second⟩ := ih rest
      exact ⟨_, w', (List.append_assoc _ _ _).symm, .post all first, second⟩
    | effect other rest =>
      obtain ⟨w, w', rfl, first, second⟩ := ih rest
      exact ⟨_, w', rfl, .effect other first, second⟩

/-- Without a post there is no attempt. -/
theorem Wired.attemptsOf_eq_nil (wired : Wired axios tr wires)
    (clean : tr.all (fun step => !step.1.posts) = true) : attemptsOf wires = [] := by
  induction wired with
  | nil => rfl
  | post all rest ih => cases clean
  | effect other rest ih =>
    rw [List.all_cons, Bool.and_eq_true] at clean
    rw [attemptsOf_effect, ih clean.2]

theorem eq_success_of_settles {b : HttpAnswer} {v : Val} (same : .returns v = b.settles) :
    b = .success v := by
  cases b <;> cases same
  rfl

/-- The read of the record on the wire, and what comes after it. -/
theorem Wired.of_read {path : String} {v : Answer} {record : Val}
    (wired : Wired axios ([(.ref path, v), (.value path, .returns record)] ++ tr) wires) :
    ∃ rest, attemptsOf wires = attemptsOf rest ∧ Wired axios tr rest ∧
      (.effect (.value path), .success record) ∈ wires ∧ ∀ step ∈ rest, step ∈ wires := by
  obtain ⟨b, w, rfl, -, wired⟩ := wired.of_effect rfl
  obtain ⟨c, rest, rfl, same, wired⟩ := wired.of_effect rfl
  rw [eq_success_of_settles same]
  exact ⟨rest, rfl, wired, by simp, fun step here => by simp [here]⟩

/-- What a refused check has left on the wire. -/
theorem Wired.of_refused {access : Val} {b : HttpAnswer} {mid : Trace}
    (wired : Wired axios mid wires) (refused : Refused access b.settles mid) :
    attemptsOf wires = [] ∧ (b.settles = .throws ∨
      ∃ c, (.effect (.openURL (ecdLink access)), c) ∈ wires ∧ c.settles = .throws) := by
  rcases refused with ⟨failed, rfl⟩ | ⟨v, -, rfl⟩
  · cases wired
    exact ⟨rfl, Or.inl failed⟩
  · obtain ⟨c, rest, rfl, same, wired⟩ := wired.of_effect rfl
    cases wired
    exact ⟨rfl, Or.inr ⟨c, by simp, same.symm⟩⟩

/-- The attempts of a run between two of its effects. -/
theorem sent_of_posted {base64 : String → String} (posted : Posted base64 tr)
    (wired : Wired axios tr wires) :
    attemptsOf wires = [] ∨ ∃ checks refreshes record access refresh,
      attemptsOf wires = checks ++ refreshes ∧
        RedirectSent axios base64 wires checks refreshes record access refresh := by
  cases posted with
  | none clean => exact Or.inl (wired.attemptsOf_eq_nil clean)
  | checked gives clean =>
    obtain ⟨rest, same, wired, read, -⟩ := wired.of_read
    obtain ⟨b, tries, w, rfl, rfl, all, tail⟩ := wired.of_post
    refine Or.inr ⟨tries, [], _, _, _, ?_, ⟨_, read⟩, gives, Or.inl ⟨b, all⟩,
      Or.inr ⟨by simp, by simp [Unanswered]⟩, fun some => absurd rfl some⟩
    rw [same, attemptsOf_append, all.attemptsOf_eq, tail.attemptsOf_eq_nil clean]
  | refreshed gives refused clean =>
    rw [List.append_assoc] at wired
    obtain ⟨rest, same, wired, read, inside⟩ := wired.of_read
    rw [List.cons_append] at wired
    obtain ⟨b, tries, w, rfl, rfl, all, tail⟩ := wired.of_post
    obtain ⟨between, w, rfl, between', tail⟩ := tail.of_append
    obtain ⟨c, again, w, rfl, rfl, both, tail⟩ := tail.of_post
    obtain ⟨silent, failed⟩ := between'.of_refused refused
    refine Or.inr ⟨tries, again, _, _, _, ?_, ⟨_, read⟩, gives, Or.inl ⟨b, all⟩, Or.inl ⟨c, both⟩,
      fun _ => ⟨b, all, failed.imp_right fun opened => ?_⟩⟩
    · simp only [same, attemptsOf_append, all.attemptsOf_eq, silent, both.attemptsOf_eq,
        tail.attemptsOf_eq_nil clean, List.nil_append, List.append_nil]
    · obtain ⟨d, opens, threw⟩ := opened
      exact ⟨d, inside _ (by simp [opens]), threw⟩

/-- The attempts of a run that is waiting for the answer to one. -/
theorem sent_of_point {base64 : String → String} {url : String} {data opts : Val}
    (point : RedirectPoint base64 tr (.post url data opts)) (wired : Wired axios tr wires)
    (few : tries.length ≤ 2) (unanswered : Unanswered (firstAttempt axios url data opts) tries) :
    ∃ checks refreshes record access refresh, attemptsOf (wires ++ tries) = checks ++ refreshes ∧
      RedirectSent axios base64 (wires ++ tries) checks refreshes record access refresh := by
  have alone := unanswered.attemptsOf_eq
  cases point with
  | check gives =>
    obtain ⟨rest, same, wired, read, -⟩ := @Wired.of_read _ [] _ _ _ _ wired
    cases wired
    refine ⟨tries, [], _, _, _, ?_, ⟨_, List.mem_append_left _ read⟩, gives,
      Or.inr ⟨few, unanswered⟩, Or.inr ⟨by simp, by simp [Unanswered]⟩, fun some => absurd rfl some⟩
    rw [attemptsOf_append, same, alone, List.append_nil]
    rfl
  | refresh gives refused =>
    obtain ⟨rest, same, wired, read, inside⟩ := wired.of_read
    obtain ⟨b, checks, w, rfl, rfl, all, tail⟩ := wired.of_post
    obtain ⟨silent, failed⟩ := tail.of_refused refused
    refine ⟨checks, tries, _, _, _, ?_, ⟨_, List.mem_append_left _ read⟩, gives, Or.inl ⟨b, all⟩,
      Or.inr ⟨few, unanswered⟩, fun _ => ⟨b, all, failed.imp_right fun opened => ?_⟩⟩
    · simp only [attemptsOf_append, same, all.attemptsOf_eq, silent, alone, List.append_nil]
    · obtain ⟨d, opens, threw⟩ := opened
      exact ⟨d, List.mem_append_left _ (inside _ (by simp [opens])), threw⟩

theorem Attempted.length_le {first : Fields} (attempted : Attempted first tries) :
    tries.length ≤ 3 := by
  rcases attempted with ⟨b, all⟩ | ⟨few, -⟩
  · exact all.length_le
  · exact few.trans (by decide)

end

/-- **What a tap sends.** Whatever the network does, a run sends at most three
attempts to check the token of the record it has read, and after a refusal at most
three to refresh the pair of that record. -/
theorem redirect_attempts (axios : Axios) (base64 : String → String) (r : Request)
    (wires : List (Wire × HttpAnswer)) (rest : Prog Wire HttpAnswer Unit)
    (leads : Prog.Leads ((takeEvery base64 r).interpret (perform axios)) wires rest) :
    attemptsOf wires = [] ∨ ∃ checks refreshes record access refresh,
      attemptsOf wires = checks ++ refreshes ∧ checks.length ≤ 3 ∧ refreshes.length ≤ 3 ∧
        RedirectSent axios base64 wires checks refreshes record access refresh := by
  obtain ⟨tr, q, done, tries, rfl, follows, wired, underWay, -⟩ := exists_run axios leads
  have bounded : (∃ checks refreshes record access refresh,
      attemptsOf (done ++ tries) = checks ++ refreshes ∧
        RedirectSent axios base64 (done ++ tries) checks refreshes record access refresh) →
      ∃ checks refreshes record access refresh,
        attemptsOf (done ++ tries) = checks ++ refreshes ∧ checks.length ≤ 3 ∧
          refreshes.length ≤ 3 ∧
          RedirectSent axios base64 (done ++ tries) checks refreshes record access refresh := by
    rintro ⟨checks, refreshes, record, access, refresh, same, sent⟩
    exact ⟨checks, refreshes, record, access, refresh, same, sent.checked.length_le,
      sent.refreshed.length_le, sent⟩
  generalize next : q.head? = e at underWay
  cases underWay with
  | idle =>
    rw [List.append_nil] at bounded ⊢
    exact (sent_of_posted (posted_of_leads follows) wired).imp_right bounded
  | post few unanswered =>
    have point := (takeEvery_redirect base64 r).of_leads follows _ next rfl
    exact Or.inr (bounded (sent_of_point point wired few unanswered))

/-- A tap of a user whose access token has expired, up to the answer of the server
to the refresh. -/
def tapWires : List (Wire × HttpAnswer) :=
  [(.effect (.ref "/users/ann@x,org"), .success .undefined),
   (.effect (.value "/users/ann@x,org"), .success (.object [("email", .str "ann@x.org"),
      ("name", .str "Ann"), ("accessToken", .str "a1"), ("refreshToken", .str "r1")])),
   (.send (firstCheck mergingAxios base64Client (.str "a1")), .failure (some 401)),
   (.send (firstRefresh mergingAxios (.str "r1")), .success (.object
      [("data", .object [("access_token", .str "a2"), ("refresh_token", .str "r2")])]))]

theorem redirect_attempts_tap :
    attemptsOf tapWires = [] ∨ ∃ checks refreshes record access refresh,
      attemptsOf tapWires = checks ++ refreshes ∧ checks.length ≤ 3 ∧ refreshes.length ≤ 3 ∧
        RedirectSent mergingAxios base64Client tapWires checks refreshes record access refresh := by
  have taken : (((takeEvery base64Client (.ecdRedirect annUser)).interpret
      (perform mergingAxios)).after? tapWires).isSome = true := by decide +kernel
  obtain ⟨rest, left⟩ := Option.isSome_iff_exists.mp taken
  exact redirect_attempts mergingAxios base64Client _ tapWires rest (.of_after? left)

/-! ## What opens the link -/

section

variable {axios : Axios} {e : Eff} {b : HttpAnswer} {tr : Trace}
  {wires tries w w' : List (Wire × HttpAnswer)}

/-- An effect is none of the attempts before it. -/
theorem of_sends_append (sends : ∀ step ∈ tries, ∃ config, step.1 = .send config)
    (same : tries ++ wires = w ++ (.effect e, b) :: w') :
    ∃ v, w = tries ++ v ∧ wires = v ++ (.effect e, b) :: w' := by
  rcases List.append_eq_append_iff.mp same with ⟨v, rfl, rest⟩ | ⟨v, rfl, rest⟩
  · exact ⟨v, rfl, rest⟩
  · cases v with
    | nil => exact ⟨[], by simp, rest.symm⟩
    | cons step v =>
      cases rest
      obtain ⟨config, attempt⟩ := sends _ (List.mem_append_right w List.mem_cons_self)
      cases attempt

/-- An effect is none of the attempts after it. -/
theorem of_append_sends (sends : ∀ step ∈ tries, ∃ config, step.1 = .send config)
    (same : wires ++ tries = w ++ (.effect e, b) :: w') :
    ∃ v, wires = w ++ (.effect e, b) :: v := by
  rcases List.append_eq_append_iff.mp same with ⟨v, rfl, rest⟩ | ⟨v, rfl, rest⟩
  · obtain ⟨config, attempt⟩ := sends (.effect e, b) (by simp [rest])
    cases attempt
  · cases v with
    | nil =>
      have first : tries = (.effect e, b) :: w' := rest.symm
      obtain ⟨config, attempt⟩ := sends (.effect e, b) (first ▸ List.mem_cons_self)
      cases attempt
    | cons step v =>
      cases rest
      exact ⟨v, rfl⟩

theorem UnderWay.sends {next : Option Eff} (underWay : UnderWay axios next tries) :
    ∀ step ∈ tries, ∃ config, step.1 = .send config := by
  cases underWay with
  | idle => simp
  | post few unanswered => exact fun step here => (unanswered step here).2.imp fun _ => And.left

/-- The part of a run before an effect on the wire. -/
theorem Wired.before (wired : Wired axios tr (w ++ (.effect e, b) :: w')) :
    ∃ before after, tr = before ++ (e, b.settles) :: after ∧ Wired axios before w := by
  generalize same : w ++ (.effect e, b) :: w' = wires at wired
  induction wired generalizing w with
  | nil => simp at same
  | post all rest ih =>
    obtain ⟨v, rfl, tail⟩ := of_sends_append (fun step here => (all.alike step here).imp
      fun _ => And.left) same.symm
    obtain ⟨before, after, rfl, wired⟩ := ih tail.symm
    exact ⟨_ :: before, after, rfl, .post all wired⟩
  | effect other rest ih =>
    cases w with
    | nil =>
      cases same
      exact ⟨[], _, rfl, .nil⟩
    | cons step w =>
      cases same
      obtain ⟨before, after, rfl, wired⟩ := ih rfl
      exact ⟨_ :: before, after, rfl, .effect other wired⟩

/-- A post that was answered with a response has its success last on the wire. -/
theorem Wired.of_response {url : String} {data opts response : Val}
    (wired : Wired axios (tr ++ [(.post url data opts, .returns response)]) wires) :
    ∃ before config, wires = before ++ [(.send config, .success response)] ∧
      Alike config (firstAttempt axios url data opts) := by
  obtain ⟨w, w', rfl, -, last⟩ := wired.of_append
  obtain ⟨c, tries, rest, rfl, same, all, ended⟩ := last.of_post
  cases ended
  obtain ⟨before, config, rfl, -, -⟩ := all.settled
  obtain ⟨config', sent, alike⟩ := all.alike (.send config, c) (by simp)
  cases sent
  rw [eq_success_of_settles same]
  exact ⟨w ++ before, config, by simp, alike⟩

end

/-- **What opens the link.** The app opens the ECD link only when the last thing
on the wire is a success: of an attempt to check the very token in the link, or of
an attempt to refresh whose response issued that token. -/
theorem redirect_opens (axios : Axios) (base64 : String → String) (r : Request)
    (w w' : List (Wire × HttpAnswer)) (url : String) (b : HttpAnswer)
    (rest : Prog Wire HttpAnswer Unit)
    (leads : Prog.Leads ((takeEvery base64 r).interpret (perform axios))
      (w ++ (.effect (.openURL url), b) :: w') rest) :
    ∃ before config response token, w = before ++ [(.send config, .success response)] ∧
      url = ecdLink token ∧
      (Alike config (firstCheck axios base64 token) ∨
        ∃ refresh, Alike config (firstRefresh axios refresh) ∧ response.issues token) := by
  obtain ⟨tr, q, done, tries, same, follows, wired, underWay, -⟩ := exists_run axios leads
  obtain ⟨v, rfl⟩ := of_append_sends underWay.sends same.symm
  obtain ⟨before, after, rfl, past⟩ := wired.before
  rw [List.append_cons] at follows
  obtain ⟨q', stands⟩ := follows.of_append
  obtain ⟨resume, stands, -⟩ := stands.of_concat
  have point := (takeEvery_redirect base64 r).of_leads stands _ rfl rfl
  cases point with
  | openStored =>
    obtain ⟨before, config, rfl, alike⟩ := past.of_response
    exact ⟨before, config, _, _, rfl, rfl, Or.inl alike⟩
  | openIssued issues =>
    obtain ⟨before, config, rfl, alike⟩ := past.of_response
    exact ⟨before, config, _, _, rfl, rfl, Or.inr ⟨_, alike, issues⟩⟩

theorem redirect_opens_tap :
    ∃ before config response token, tapWires = before ++ [(.send config, .success response)] ∧
      ecdLink (.str "a2") = ecdLink token ∧
      (Alike config (firstCheck mergingAxios base64Client token) ∨
        ∃ refresh, Alike config (firstRefresh mergingAxios refresh) ∧ response.issues token) := by
  have taken : (((takeEvery base64Client (.ecdRedirect annUser)).interpret
      (perform mergingAxios)).after? (tapWires ++
        [(.effect (.openURL (ecdLink (.str "a2"))), .success .undefined)])).isSome = true := by
    decide +kernel
  obtain ⟨rest, left⟩ := Option.isSome_iff_exists.mp taken
  exact redirect_opens mergingAxios base64Client _ tapWires [] _ _ rest (.of_after? left)

end GAMember
