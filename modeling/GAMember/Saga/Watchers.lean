import GAMember.Effects.Supervisor
import GAMember.Saga.Root

/-!
# The root saga

The root saga runs the default sagas of `state/welcome` and `state/portal`. Each
of their `yield all` forks one `takeEvery`, which does not block, so all watchers
are alive once the root saga has started. A watcher compares the type of an action
with its own and forks its saga, whose argument is destructured before any `try`
is entered.

`requests_served`: with the payloads the components build no run ever throws, so
every request starts its run. A single action without a payload would take all
watchers away (`watchers_of_bare`).
-/

namespace GAMember

open Saga

/-! ## Types of actions -/

def LOGIN : String := "[LOGIN]"

def LOGIN_SUCCESS : String := LOGIN ++ " success"

def LOGIN_FAIL : String := LOGIN ++ " fail"

def IS_LOGGED : String := "[IS_LOGGED]"

def IS_LOGGED_SUCCESS : String := IS_LOGGED ++ " success"

def IS_LOGGED_FAIL : String := IS_LOGGED ++ " fail"

def LOGOUT : String := "[LOGOUT]"

def LOGOUT_SUCCESS : String := LOGOUT ++ " success"

def LOGOUT_FAIL : String := LOGOUT ++ " fail"

def ECD_REDIRECT : String := "[ECD_REDIRECT]"

def ECD_REDIRECT_SUCCESS : String := ECD_REDIRECT ++ " success"

def ECD_REDIRECT_FAIL : String := ECD_REDIRECT ++ " fail"

/-- The `type` of an action. -/
def Action.type : Action → String
  | .login _ => LOGIN
  | .loginSuccess _ => LOGIN_SUCCESS
  | .loginFail => LOGIN_FAIL
  | .isLogged _ => IS_LOGGED
  | .isLoggedSuccess _ => IS_LOGGED_SUCCESS
  | .isLoggedFail => IS_LOGGED_FAIL
  | .logout _ => LOGOUT
  | .logoutSuccess => LOGOUT_SUCCESS
  | .logoutFail => LOGOUT_FAIL
  | .ecdRedirect _ => ECD_REDIRECT
  | .ecdRedirectSuccess => ECD_REDIRECT_SUCCESS
  | .ecdRedirectFail => ECD_REDIRECT_FAIL

/-- What reaches the store: an action as the components and sagas build it, or
one of some type without a payload. -/
inductive Dispatch
  | action (a : Action)
  | bare (type : String)
  deriving DecidableEq

def Dispatch.type : Dispatch → String
  | .action a => a.type
  | .bare type => type

/-! ## Watchers -/

/-- `{ payload: { navigation } }`, `none` where the destructuring throws. -/
def Dispatch.navigation? : Dispatch → Option Navigation
  | .action (.login navigation) => some navigation
  | .action (.isLogged navigation) => some navigation
  | .action (.logout navigation) => some navigation
  | _ => none

/-- `{ payload: { user } }`. -/
def Dispatch.user? : Dispatch → Option Val
  | .action (.ecdRedirect user) => some user
  | _ => none

/-- `takeEvery(type, worker)`. -/
def watch (type : String) (worker : Dispatch → Saga Unit) : Watcher Dispatch Eff Answer :=
  fun d => if d.type = type then some (worker d) else none

/-- The watchers of `state/welcome`, one `yield all` after another. -/
def welcomeSaga : List (List (Watcher Dispatch Eff Answer)) :=
  [[watch LOGIN fun d => ofOption d.navigation? >>= loginSaga],
    [watch IS_LOGGED fun d => ofOption d.navigation? >>= isLoggedSaga],
    [watch LOGOUT fun d => ofOption d.navigation? >>= logoutSaga]]

/-- The watchers of `state/portal`. -/
def portalSaga (base64 : String → String) : List (List (Watcher Dispatch Eff Answer)) :=
  [[watch ECD_REDIRECT fun d => ofOption d.user? >>= ecdRedirectSaga base64]]

/-- The watchers the root saga forks: `all([welcomeSaga(), portalSaga()])`. -/
def rootSaga (base64 : String → String) : List (Watcher Dispatch Eff Answer) :=
  (welcomeSaga ++ portalSaga base64).flatten

/-- `put` brings an action to the store, where the watchers see it. -/
def Eff.dispatches (e : Eff) : Option Dispatch := e.dispatched?.map Dispatch.action

/-- The request a component dispatched. -/
def Dispatch.request? : Dispatch → Option Request
  | .action (.login navigation) => some (.login navigation)
  | .action (.isLogged navigation) => some (.isLogged navigation)
  | .action (.logout navigation) => some (.logout navigation)
  | .action (.ecdRedirect user) => some (.ecdRedirect user)
  | _ => none

section

variable (base64 : String → String)

/-- A request is taken by one watcher, which starts the saga of the request. -/
theorem startedBy_request (r : Request) :
    startedBy (rootSaga base64) (.action r.action) = [takeEvery base64 r] := by
  cases r <;> rfl

/-- No watcher takes the end of a request for a request. -/
theorem startedBy_terminal {a : Action} (terminal : a.phase ≠ .request) :
    startedBy (rootSaga base64) (.action a) = [] := by
  cases a <;> first | rfl | exact absurd rfl terminal

/-- An action of a watched type must have a payload: the saga throws before it has
entered its `try`. -/
theorem startedBy_bare {type : String}
    (watched : type ∈ [LOGIN, IS_LOGGED, LOGOUT, ECD_REDIRECT]) :
    startedBy (rootSaga base64) (.bare type) = [.thrown] := by
  simp only [List.mem_cons, List.not_mem_nil, or_false] at watched
  rcases watched with rfl | rfl | rfl | rfl <;> rfl

theorem put_neverThrows (action : Action) : (put action).NeverThrows := fun _ => trivial

/-- Every saga catches what is thrown in it, and its handler only dispatches. -/
theorem takeEvery_neverThrows (r : Request) : (takeEvery base64 r).NeverThrows := by
  cases r with
  | login navigation => exact Prog.NeverThrows.of_handler (put_neverThrows .loginFail) _
  | isLogged navigation => exact Prog.NeverThrows.of_handler (put_neverThrows .isLoggedFail) _
  | logout navigation => exact Prog.NeverThrows.of_handler (put_neverThrows .logoutFail) _
  | ecdRedirect user => exact Prog.NeverThrows.of_handler (put_neverThrows .ecdRedirectFail) _

end

/-! ## Sagas dispatch no requests -/

/-- The effect dispatches a request. -/
def Eff.requests (e : Eff) : Bool := e.dispatched?.any fun a => a.phase = .request

theorem loginSaga_avoids_requests (navigation : Navigation) :
    (loginSaga navigation).Avoids Eff.requests := by
  refine Prog.Avoids.tryCatch ?_ (put_avoids rfl)
  refine (await_avoids rfl).bind fun result => (ofOption_avoids _).bind fun user => ?_
  split
  · refine (put_avoids rfl).bind fun _ => (await_avoids rfl).bind fun _ =>
      (ofOption_avoids _).bind fun email => (ofOption_avoids _).bind fun emailEscaped =>
      once_avoids rfl rfl rfl (fun snapshot => ?_) (Prog.avoids_ret _ ())
    split
    · exact (ofOption_avoids _).bind fun _ => (ofOption_avoids _).bind fun _ =>
        (await_avoids rfl).bind fun _ => Prog.avoids_ret _ ()
    · exact Prog.avoids_ret _ ()
  · exact Prog.avoids_ret _ ()

theorem isLoggedSaga_avoids_requests (navigation : Navigation) :
    (isLoggedSaga navigation).Avoids Eff.requests := by
  have shown : (await (.navigate navigation .dashboard) >>= fun _ =>
      put (.isLoggedSuccess none)).Avoids Eff.requests :=
    (await_avoids rfl).bind fun _ => put_avoids rfl
  refine Prog.Avoids.tryCatch ?_ (put_avoids rfl)
  refine (await_avoids rfl).bind fun _ => (await_avoids rfl).bind fun _ =>
    (await_avoids rfl).bind fun isLogged => ?_
  split
  · refine (await_avoids rfl).bind fun userInfo => ?_
    split
    · exact (ofOption_avoids _).bind fun user => (put_avoids rfl).bind fun _ => shown
    · exact (await_avoids rfl).bind fun result => (ofOption_avoids _).bind fun user =>
        (put_avoids rfl).bind fun _ => shown
  · exact put_avoids rfl

theorem logoutSaga_avoids_requests (navigation : Navigation) :
    (logoutSaga navigation).Avoids Eff.requests := by
  refine Prog.Avoids.tryCatch ?_ (put_avoids rfl)
  exact (await_avoids rfl).bind fun _ => (put_avoids rfl).bind fun _ =>
    (await_avoids rfl).bind fun _ => Prog.avoids_ret _ ()

section

variable (base64 : String → String)

theorem ecdRedirectSaga_avoids_requests (user : Val) :
    (ecdRedirectSaga base64 user).Avoids Eff.requests :=
  ecdRedirect_avoids base64 user (fun _ _ _ => rfl) (fun _ => rfl) (fun _ _ => rfl) rfl
    (fun _ => rfl) (fun _ => rfl) rfl

theorem takeEvery_avoids_requests (r : Request) : (takeEvery base64 r).Avoids Eff.requests := by
  cases r with
  | login navigation => exact loginSaga_avoids_requests navigation
  | isLogged navigation => exact isLoggedSaga_avoids_requests navigation
  | logout navigation => exact logoutSaga_avoids_requests navigation
  | ecdRedirect user => exact ecdRedirectSaga_avoids_requests base64 user

/-- A run of a saga neither throws nor starts another run. -/
theorem takeEvery_harmless (r : Request) :
    Supervised.Harmless (rootSaga base64) Eff.dispatches (takeEvery base64 r) := by
  refine ⟨takeEvery_neverThrows base64 r, (takeEvery_avoids_requests base64 r).mono ?_⟩
  intro e terminal
  unfold Eff.requests at terminal
  unfold Eff.dispatches
  cases dispatched : e.dispatched? with
  | none => rfl
  | some a =>
    simp only [dispatched, Option.any_some, decide_eq_false_iff_not] at terminal
    rw [Option.map_some, Option.any_some, startedBy_terminal base64 terminal]
    rfl

end

/-- For each dispatched request the run of its saga is started, in order. -/
theorem startedBy_requests (base64 : String → String) {ds : List Dispatch}
    (requests : ∀ d ∈ ds, ∃ r : Request, d = .action r.action) :
    ds.flatMap (startedBy (rootSaga base64)) =
      (ds.filterMap Dispatch.request?).map (takeEvery base64) := by
  induction ds with
  | nil => rfl
  | cons d ds ih =>
      obtain ⟨r, rfl⟩ := requests d List.mem_cons_self
      have request : (Dispatch.action r.action).request? = some r := by cases r <;> rfl
      rw [List.flatMap_cons, startedBy_request, List.filterMap_cons, request, List.map_cons,
        ih fun d member => requests d (List.mem_cons_of_mem _ member)]
      rfl

/-- An action of a watched type without a payload takes all watchers away. -/
theorem watchers_of_bare (base64 : String → String) {s s' : Supervised Dispatch Eff Answer}
    {type : String} (alive : s.watchers = rootSaga base64)
    (watched : type ∈ [LOGIN, IS_LOGGED, LOGOUT, ECD_REDIRECT])
    (taken : s.step Eff.dispatches (.message (.bare type)) = some s') : s'.watchers = [] := by
  cases taken
  refine Supervised.watchers_deliver_of_crash ?_
  rw [alive, startedBy_bare base64 watched]
  exact List.mem_singleton_self _

/-- **No request is dropped.** Whatever the calls of all runs come to, and however
the runs are interleaved, the four watchers stay, and every request a component
dispatches has started one run of its own saga; no run has thrown. -/
theorem requests_served (base64 : String → String)
    (ls : List (Supervised.Label Dispatch Eff Answer)) (s : Supervised Dispatch Eff Answer)
    (taken : (Supervised.initial (rootSaga base64)).run Eff.dispatches ls = some s)
    (requests : ∀ d, .message d ∈ ls → ∃ r : Request, d = .action r.action) :
    s.watchers = rootSaga base64 ∧
      s.jobs.map Job.program =
        ((ls.filterMap Supervised.Label.message?).filterMap Dispatch.request?).map
          (takeEvery base64) ∧
      ∀ job ∈ s.jobs, job.rest.crashed = false := by
  have harmless : ∀ d, .message d ∈ ls → ∀ p ∈ startedBy (rootSaga base64) d,
      Supervised.Harmless (rootSaga base64) Eff.dispatches p := by
    intro d member p started
    obtain ⟨r, rfl⟩ := requests d member
    rw [startedBy_request, List.mem_singleton] at started
    subst started
    exact takeEvery_harmless base64 r
  have healthy := (Supervised.healthy_initial (rootSaga base64) Eff.dispatches).run harmless taken
  refine ⟨healthy.alive, healthy.started.trans (startedBy_requests base64 fun d member => ?_),
    fun job member => Supervised.crashed_of_neverThrows (healthy.harmless job member).1⟩
  obtain ⟨l, here, message⟩ := List.mem_filterMap.mp member
  cases l with
  | message d' =>
    cases message
    exact requests d here
  | act i e a => cases message

/-- A redirect before anybody has logged in, and a login that the SDK refuses. -/
def refusedLabels : List (Supervised.Label Dispatch Eff Answer) :=
  [.message (.action (.ecdRedirect (.object []))), .message (.action (.login ⟨.welcome⟩)),
    .act 1 .signIn .throws, .act 0 (.put .ecdRedirectFail) (.returns .undefined),
    .act 1 (.put .loginFail) (.returns .undefined)]

theorem requests_served_refused : ∃ s,
    (Supervised.initial (rootSaga base64Client)).run Eff.dispatches refusedLabels = some s ∧
      s.watchers = rootSaga base64Client ∧
      s.jobs.map Job.program =
        ((refusedLabels.filterMap Supervised.Label.message?).filterMap Dispatch.request?).map
          (takeEvery base64Client) ∧
      ∀ job ∈ s.jobs, job.rest.crashed = false := by
  have possible : ((Supervised.initial (rootSaga base64Client)).run Eff.dispatches
      refusedLabels).isSome = true := by decide +kernel
  obtain ⟨s, taken⟩ := Option.isSome_iff_exists.mp possible
  refine ⟨s, taken, requests_served base64Client refusedLabels s taken ?_⟩
  intro d member
  simp only [refusedLabels, List.mem_cons, Supervised.Label.message.injEq, reduceCtorEq,
    List.not_mem_nil, or_false] at member
  rcases member with rfl | rfl
  · exact ⟨.ecdRedirect (.object []), rfl⟩
  · exact ⟨.login ⟨.welcome⟩, rfl⟩

end GAMember
