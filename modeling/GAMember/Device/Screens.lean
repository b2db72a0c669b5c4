import GAMember.Device.Progress

/-!
# The screens

The system of `Device.System` with the components around it. The navigator renders
the screen it shows; mounting `Register` dispatches `IS_LOGGED`, and what else is
dispatched are presses of the buttons the rendered component offers. A component
is rendered some time after the navigation that asks for it, and until then the
old one can still be pressed.

* `App.projects`: a run of the app is a run of the device.
* `app_responds`: no component throws, and at rest some button is offered.
* `signIn_afterIsLogged`: when the sign-in can be pressed.
-/

namespace GAMember

open Saga

/-! ## Components -/

inductive Button
  | signIn
  | signOut
  | goToEcd
  deriving DecidableEq

/-- What a component renders, as far as it can be pressed or can throw. -/
inductive View
  | spinner
  | register
  | portal (name : Val)
  deriving DecidableEq

def View.offers : View → Button → Bool
  | .spinner, _ => false
  | .register, button => button = .signIn
  | .portal _, button => button = .signOut || button = .goToEcd

/-- `render` of `Register`, with its prop from the selector `isLoggedInProgress`. -/
def Register.render (isLoggedInProgress : Bool) : View :=
  if isLoggedInProgress then .spinner else .register

/-- `render` of `Portal`, which reads `user.name`. -/
def Portal.render (user : Val) : Option View := (user.prop "name").map .portal

/-- The runs of the sagas on the device, and the component that is mounted. -/
structure App where
  conf : Conf Device Request Eff Answer
  mounted : Option Screen

/-- The navigator renders the screen it shows, a button is pressed, or a run goes on. -/
inductive Event
  | render
  | press (button : Button)
  | act (i : Nat) (e : Eff) (a : Answer)
  deriving DecidableEq

namespace App

/-- The app has been started and nothing is rendered yet. -/
def initial (session : Option Val) : App := ⟨.initial (.initial session), none⟩

/-- What is rendered; nothing, where the mounted component throws. -/
def view (app : App) : Option View :=
  match app.mounted with
  | none => none
  | some .welcome => some (Register.render (app.conf.world.store.inProgress .isLogged))
  | some .dashboard => Portal.render app.conf.world.store.getUser

def offers (app : App) (button : Button) : Bool := app.view.any fun view => view.offers button

/-- The request the handler of a button dispatches, with the props of its component. -/
def request (app : App) : Button → Request
  | .signIn => .login ⟨.welcome⟩
  | .signOut => .logout ⟨.dashboard⟩
  | .goToEcd => .ecdRedirect app.conf.world.store.getUser

/-- The step of the device behind an event; mounting the Dashboard is none. -/
def label? (app : App) : Event → Option (Label Request Eff Answer)
  | .render =>
      if app.conf.world.screen = .welcome then some (.start (.isLogged ⟨.welcome⟩)) else none
  | .press button => some (.start (app.request button))
  | .act i e a => some (.act i e a)

/-- The event can happen: another screen is to be rendered, or the button is offered. -/
def enabled (app : App) : Event → Bool
  | .render => app.mounted ≠ some app.conf.world.screen
  | .press button => app.offers button
  | .act _ _ _ => true

/-- The component that is mounted after an event. -/
def mountedAfter (app : App) : Event → Option Screen
  | .render => some app.conf.world.screen
  | _ => app.mounted

variable (base64 : String → String) (allows : Device → Eff → Answer → Bool)

def step (app : App) (event : Event) : Option App :=
  if app.enabled event then
    match app.label? event with
    | some l =>
        ((device base64 allows).step app.conf l).map fun conf => ⟨conf, app.mountedAfter event⟩
    | none => some ⟨app.conf, app.mountedAfter event⟩
  else none

def run (app : App) (events : List Event) : Option App := events.foldlM (step base64 allows) app

variable {base64 allows} {app app' : App} {event : Event} {events : List Event}
  {session : Option Val}

/-- What an event does: it was possible, and the device took its step, if it has one. -/
theorem of_step (taken : app.step base64 allows event = some app') :
    app.enabled event = true ∧ app'.mounted = app.mountedAfter event ∧
      (device base64 allows).run app.conf (app.label? event).toList = some app'.conf := by
  unfold step at taken
  split at taken
  · rename_i enabled
    refine ⟨enabled, ?_⟩
    cases behind : app.label? event with
    | none =>
      rw [behind] at taken
      cases taken
      exact ⟨rfl, rfl⟩
    | some l =>
      rw [behind] at taken
      obtain ⟨conf, step, rfl⟩ := Option.map_eq_some_iff.mp taken
      exact ⟨rfl, Machine.run_singleton.trans step⟩
  · cases taken

/-- Induction along a run of the app. -/
theorem run_induction {motive : List Event → App → Prop} (first : motive [] app)
    (next : ∀ events before event after, app.run base64 allows events = some before →
      motive events before → before.step base64 allows event = some after →
      motive (events ++ [event]) after)
    (taken : app.run base64 allows events = some app') : motive events app' := by
  induction events using List.reverseRecOn generalizing app' with
  | nil =>
    cases taken
    exact first
  | append_singleton events event ih =>
    rw [run, List.foldlM_append] at taken
    obtain ⟨before, earlier, last⟩ := Option.bind_eq_some_iff.mp taken
    have step : before.step base64 allows event = some app' := by simpa using last
    exact next events before event app' earlier (ih earlier) step

/-- **A run of the app is a run of the device.** -/
theorem projects (taken : app.run base64 allows events = some app') :
    ∃ ls, (device base64 allows).run app.conf ls = some app'.conf := by
  refine run_induction (motive := fun _ app' => ∃ ls, (device base64 allows).run app.conf ls =
    some app'.conf) ⟨[], rfl⟩ ?_ taken
  rintro events before event after - ⟨ls, reached⟩ step
  refine ⟨ls ++ (before.label? event).toList, ?_⟩
  rw [Machine.run_append, reached]
  exact (of_step step).2.2

end App

/-! ## A flag that is up has a run behind it -/

section

variable {base64 : String → String} {allows : Device → Eff → Answer → Bool}
  {session : Option Val} {ls : List (Label Request Eff Answer)}
  {c c' : Conf Device Request Eff Answer} {X : Family}

theorem inProgress_request (state : RootState) (r : Request) (X : Family) :
    (state.reducer r.action).inProgress X =
      (decide (r.action.family = X) || state.inProgress X) := by
  rw [inProgress_reducer]
  cases r <;> cases X <;> simp [Request.action, Action.family, Action.phase]

/-- A pending run that performs an effect other than a dispatch is still pending,
unless it is a login. -/
theorem pending_act {t t' : Thread Request Eff Answer} {e : Eff} {a : Answer}
    (point : t'.tag.Point t'.hist t'.rest.head?) (tag : t'.tag = t.tag)
    (hist : t'.hist = t.hist ++ [(e, a)]) (silent : e.dispatched? = none)
    (other : t.tag.action.family ≠ .login ∧ t.tag.action.family ≠ .ecdRedirect)
    (pending : Pending t = true) : Pending t' = true := by
  have nothing : Trace.dispatched t.hist = [] := by
    simpa [Pending] using (Bool.and_eq_true_iff.mp pending).2
  have dispatched : Trace.dispatched t'.hist = [] := by simp [hist, silent, nothing]
  cases next : t'.rest.head? with
  | some e => simp [Pending, next, dispatched]
  | none =>
    rw [next] at point
    have login := (silent_of_point point dispatched (tag ▸ other.2)).1
    exact absurd (tag ▸ login) other.1

theorem busy_act {i : Nat} {e : Eff} {a : Answer} (responds : X = .isLogged ∨ X = .logout)
    (before : (device base64 allows).run (.initial (.initial session)) ls = some c)
    (busy : c.world.store.inProgress X = true → Busy c X)
    (taken : (device base64 allows).step c (.act i e a) = some c')
    (up : c'.world.store.inProgress X = true) : Busy c' X := by
  obtain ⟨t, t', here, -, point, -, world, there, tag, hist, point', rest⟩ :=
    device_act before taken
  have welcome : X ≠ .ecdRedirect := by rcases responds with rfl | rfl <;> simp
  rw [world] at up
  have persists (was : Busy c X) (own : t.tag.action.family = X → Pending t' = true ∨
      Pending t = false) : Busy c' X := by
    rcases was with ⟨j, u, standing, family, pending⟩
    by_cases same : j = i
    · subst same
      cases here.symm.trans standing
      refine ⟨j, t', there, tag ▸ family, ?_⟩
      rcases own family with still | ended
      · exact still
      · exact absurd (pending.symm.trans ended) (by simp)
    · exact ⟨j, u, (rest j same).trans standing, family, pending⟩
  by_cases dispatches : ∃ action, e = .put action
  · rcases dispatches with ⟨action, rfl⟩
    have family := family_of_point point
    rw [Device.after_put] at up
    have reduced : (c.world.store.reducer action).inProgress X = true := up
    rw [inProgress_reducer] at reduced
    by_cases own : action.family = X
    · -- a terminal action takes the flag down
      have phase := phase_of_point point (own ▸ welcome)
      simp [own, phase] at reduced
    · rw [if_neg own] at reduced
      split at reduced
      · cases reduced
      · exact persists (busy reduced) fun same => absurd (family.trans same) own
  · have silent : e.dispatched? = none := Eff.dispatched?_eq_none fun action same =>
      dispatches ⟨action, same⟩
    rw [Device.after_store silent] at up
    refine persists (busy up) fun same => ?_
    cases pending : Pending t with
    | false => exact Or.inr rfl
    | true =>
      refine Or.inl (pending_act point' tag hist silent ?_ pending)
      rw [same]
      rcases responds with rfl | rfl <;> simp

/-- **No spinner without a run.** Whatever the order of steps, the flags of
`isLogged$` and `logout$` are only up while one of their runs is pending. -/
theorem busy_of_inProgress (responds : X = .isLogged ∨ X = .logout)
    (taken : (device base64 allows).run (.initial (.initial session)) ls = some c) :
    c.world.store.inProgress X = true → Busy c X := by
  refine Machine.run_induction (m := device base64 allows) (c := .initial (.initial session))
    (motive := fun _ c => c.world.store.inProgress X = true → Busy c X) ?_ ?_ taken
  · intro up
    rcases responds with rfl | rfl <;> cases up
  · intro ls c l c' before busy step up
    cases l with
    | act i e a => exact busy_act responds before busy step up
    | start r =>
      refine (busy_start step (by rcases responds with rfl | rfl <;> simp)).mpr ?_
      cases step
      have reduced : (c.world.store.reducer r.action).inProgress X = true := up
      rw [inProgress_request, Bool.or_eq_true, decide_eq_true_eq] at reduced
      exact reduced.imp_right busy

/-- When no run is in flight, none is pending. -/
theorem not_busy_of_quiet (quiet : c.quiet = true) : ¬ Busy c X := by
  intro busy
  rcases busy with ⟨i, t, here, -, pending⟩
  have ended := List.all_eq_true.mp quiet t (List.mem_of_getElem? here)
  simp [Pending, Prog.head?_isSome, ended] at pending

end

/-! ## Components do not throw -/

/-- The user objects the Google SDK gives to `isLogged$` are there. -/
def givesUser : Eff → Answer → Bool
  | .getCurrentUser, .returns v => !v.truthy || (v.prop "user").all Val.truthy
  | .signInSilently, .returns v => (v.prop "user").all Val.truthy
  | _, _ => true

/-- Whatever the saga stores next is a user object. -/
def StoresUser (_ : Trace) (rest : Saga Unit) : Prop :=
  ∀ action user, rest.head? = some (.put action) → action.user? = some user → user.truthy = true

section

variable {base64 : String → String} {allows : Device → Eff → Answer → Bool}
  {session : Option Val} {ls : List (Label Request Eff Answer)}
  {c : Conf Device Request Eff Answer}

theorem isLogged_stores (navigation : Navigation) :
    Prog.Along (fun _ e a => givesUser e a = true) StoresUser [] (isLoggedSaga navigation) := by
  have quiet {past : Trace} {e : Eff} {resume : Answer → Saga Unit}
      (none : ∀ action, e = .put action → action.user? = none)
      (rest : ∀ a, givesUser e a = true →
        Prog.Along (fun _ e a => givesUser e a = true) StoresUser (past ++ [(e, a)]) (resume a)) :
      Prog.Along (fun _ e a => givesUser e a = true) StoresUser past (.call e resume) := by
    refine ⟨fun action user here stores => ?_, rest⟩
    cases here
    rw [none action rfl] at stores
    cases stores
  have ended {past : Trace} : Prog.Along (fun _ e a => givesUser e a = true) StoresUser past
      (.ret () : Saga Unit) := fun action user here => by cases here
  have failing {past : Trace} : Prog.Along (fun _ e a => givesUser e a = true) StoresUser past
      (put .isLoggedFail) := quiet (fun action same => by cases same; rfl) fun _ _ => ended
  have storing {past : Trace} {user : Val} (truthy : user.truthy = true) :
      Prog.Along (fun _ e a => givesUser e a = true) StoresUser past
        (Prog.tryCatch
          (do
            put (.isLoggedSuccess (some user))
            let _ ← await (.navigate navigation .dashboard)
            put (.isLoggedSuccess none))
          (put .isLoggedFail)) := by
    refine ⟨fun action stored here stores => ?_, fun _ _ => quiet (by simp) fun a _ => ?_⟩
    · cases here
      cases stores
      exact truthy
    · cases a with
      | returns v => exact quiet (fun action same => by cases same; rfl) fun _ _ => ended
      | throws => exact failing
  simp only [isLoggedSaga, await, Saga.prop, Prog.call_bind, Prog.tryCatch_call]
  refine quiet (by simp) fun a _ => ?_
  cases a with
  | throws => exact failing
  | returns _ =>
  refine quiet (by simp) fun a _ => ?_
  cases a with
  | throws => exact failing
  | returns _ =>
  refine quiet (by simp) fun a _ => ?_
  cases a with
  | throws => exact failing
  | returns isLogged =>
  cases signedIn : isLogged.truthy with
  | false =>
    simp only [Prog.ret_bind, signedIn]
    exact quiet (fun action same => by cases same; rfl) fun _ _ => ended
  | true =>
  simp only [Prog.ret_bind, signedIn, if_true]
  refine quiet (by simp) fun a given => ?_
  cases a with
  | throws => exact failing
  | returns userInfo =>
  cases truthy : userInfo.truthy with
  | true =>
    obtain ⟨user, field⟩ := Val.prop_of_truthy truthy "user"
    simp only [Prog.ret_bind, truthy, if_true, field, ofOption_some]
    exact storing (by simpa [givesUser, truthy, field] using given)
  | false =>
    simp only [Prog.ret_bind, truthy]
    refine quiet (by simp) fun a given => ?_
    cases a with
    | throws => exact failing
    | returns result =>
    cases field : result.prop "user" with
    | none =>
      simp only [Prog.ret_bind, field, ofOption_none]
      exact failing
    | some user =>
      simp only [Prog.ret_bind, field, ofOption_some]
      exact storing (by simpa [givesUser, field] using given)

theorem takeEvery_stores (base64 : String → String) (r : Request) :
    Prog.Along (fun _ e a => givesUser e a = true) StoresUser [] (takeEvery base64 r) := by
  have family {action : Action} {user : Val} (stores : action.user? = some user) :
      action.family = .login ∨ action.family = .isLogged := by
    cases action <;> first | exact Or.inl rfl | exact Or.inr rfl | cases stores
  cases r with
  | isLogged navigation => exact isLogged_stores navigation
  | login navigation =>
    refine (takeEvery_points base64 (.login navigation)).restrict.mono
      fun hist rest point action user here stores => ?_
    rw [here] at point
    cases point with
    | signedIn given truthy =>
      cases stores
      exact truthy
    | database stored shown next =>
      rcases next with database | failure
      · cases database
      · cases failure
        cases stores
    | refused => cases stores
  | logout navigation | ecdRedirect user =>
    refine (takeEvery_points base64 _).restrict.mono
      fun hist rest point action user here stores => ?_
    have own := family_of_point (here ▸ point)
    rcases family stores with login | isLogged
    · cases login.symm.trans own
    · cases isLogged.symm.trans own

/-- The stored user is one whose properties can be read. -/
def Readable (c : Conf Device Request Eff Answer) : Prop :=
  ∀ key, (c.world.store.getUser.prop key).isSome = true

theorem readable_run (users : ∀ d e a, allows d e a = true → givesUser e a = true)
    (taken : (device base64 allows).run (.initial (.initial session)) ls = some c) :
    Readable c := by
  have admitted : (device base64 allows).AllSteps
      (Machine.Admits fun _ _ e a => givesUser e a = true) (.initial (.initial session)) ls := by
    refine Machine.allSteps_iff.mpr fun before l after d d' _ _ step => ?_
    cases l with
    | start r => trivial
    | act i e a =>
      obtain ⟨t, resume, here, -, allowed, -⟩ := Machine.step_act step
      exact fun _ _ => users _ e a allowed
  refine Machine.run_induction_of_allSteps (m := device base64 allows)
    (c := .initial (.initial session)) (P := Machine.Admits fun _ _ e a => givesUser e a = true)
    (motive := fun ls c => (device base64 allows).AllSteps
      (Machine.Admits fun _ _ e a => givesUser e a = true) (.initial (.initial session)) ls →
      Readable c) (fun _ _ => rfl) ?_ taken admitted admitted
  intro ls c l c' before readable _ step all
  have earlier := ((Machine.allSteps_concat before step).mp all).1
  cases l with
  | start r =>
    cases step
    intro key
    show ((c.world.store.reducer r.action).getUser.prop key).isSome = true
    rw [RootState.getUser_reducer]
    cases r <;> exact readable earlier key
  | act i e a =>
    obtain ⟨t, t', here, standing, -, -, world, -, -, -, -, -⟩ := device_act before step
    intro key
    rw [world]
    by_cases dispatches : ∃ action, e = .put action
    · rcases dispatches with ⟨action, rfl⟩
      have stores := (Machine.thread_along (fun _ _ e a => givesUser e a = true)
        (takeEvery_stores base64) before earlier here).here
      rw [Device.after_put]
      show ((c.world.store.reducer action).getUser.prop key).isSome = true
      rw [RootState.getUser_reducer]
      cases storesUser : action.user? with
      | none => exact readable earlier key
      | some user =>
        obtain ⟨field, read⟩ := Val.prop_of_truthy (stores action user standing storesUser) key
        rw [Option.getD_some, read]
        rfl
    · rw [Device.after_store (Eff.dispatched?_eq_none fun action same => dispatches ⟨action, same⟩)]
      exact readable earlier key

end

/-- **The app responds.** Where the SDK gives users that are there, a mounted
component never throws, and when no run is in flight and the shown screen has been
rendered, some button is offered. -/
theorem app_responds (base64 : String → String) (allows : Device → Eff → Answer → Bool)
    (session : Option Val) (events : List Event) (app : App)
    (users : ∀ d e a, allows d e a = true → givesUser e a = true)
    (taken : (App.initial session).run base64 allows events = some app) :
    (app.mounted.isSome = true → app.view.isSome = true) ∧
      (app.conf.quiet = true → app.mounted = some app.conf.world.screen →
        ∃ button, app.offers button = true) := by
  obtain ⟨ls, reached⟩ := App.projects taken
  have readable := readable_run users reached "name"
  obtain ⟨name, field⟩ := Option.isSome_iff_exists.mp readable
  refine ⟨fun mounted => ?_, fun quiet rendered => ?_⟩
  · obtain ⟨screen, shown⟩ := Option.isSome_iff_exists.mp mounted
    cases screen with
    | welcome => simp [App.view, shown]
    | dashboard => simp [App.view, shown, Portal.render, field]
  · cases screen : app.conf.world.screen with
    | welcome =>
      have down : app.conf.world.store.inProgress .isLogged = false := by
        by_contra up
        exact not_busy_of_quiet quiet
          (busy_of_inProgress (Or.inl rfl) reached (by simpa using up))
      exact ⟨.signIn, by simp [App.offers, App.view, rendered, screen, down, Register.render,
        View.offers]⟩
    | dashboard =>
      exact ⟨.signOut, by simp [App.offers, App.view, rendered, screen, Portal.render, field,
        View.offers]⟩

/-- The app is started, and finds out that nobody has signed in. -/
def startedByNobody : List Event :=
  [.render, .act 0 .configure (.returns .undefined), .act 0 .app (.returns .undefined),
   .act 0 .isSignedIn (.returns (.bool false)),
   .act 0 (.put (.isLoggedSuccess none)) (.returns .undefined)]

/-- Then the user signs in, and is found in the database. -/
def signedIn : List Event :=
  startedByNobody ++
  [.press .signIn, .act 1 .signIn (.returns (.object [("user", annUser)])),
   .act 1 (.put (.loginSuccess annUser)) (.returns .undefined),
   .act 1 (.navigate ⟨.welcome⟩ .dashboard) (.returns (.bool true)), .render,
   .act 1 (.ref "/users/ann@x,org") (.returns .undefined),
   .act 1 (.value "/users/ann@x,org") (.returns (.object [("name", .str "Ann")]))]

/-- And signs out; `Register` finds out again that nobody has signed in. -/
def signedOut : List Event :=
  signedIn ++
  [.press .signOut, .act 2 .signOut (.returns .undefined),
   .act 2 (.put .logoutSuccess) (.returns .undefined),
   .act 2 (.navigate ⟨.dashboard⟩ .welcome) (.returns (.bool true)), .render,
   .act 3 .configure (.returns .undefined), .act 3 .app (.returns .undefined),
   .act 3 .isSignedIn (.returns (.bool false)),
   .act 3 (.put (.isLoggedSuccess none)) (.returns .undefined)]

theorem app_responds_signedIn :
    (∃ app, (App.initial none).run base64Client (fun _ e a => givesUser e a) signedIn = some app ∧
      app.mounted = some .dashboard ∧ app.view.isSome = true ∧ ∃ button, app.offers button = true) ∧
    ∃ app, (App.initial none).run base64Client (fun _ e a => givesUser e a) signedOut = some app ∧
      app.mounted = some .welcome ∧ app.view.isSome = true ∧
      ∃ button, app.offers button = true := by
  have dashboard : (((App.initial none).run base64Client (fun _ e a => givesUser e a) signedIn).map
      fun app => (app.mounted, app.conf.quiet, app.conf.world.screen)) =
        some (some .dashboard, true, .dashboard) := by decide +kernel
  have welcome : (((App.initial none).run base64Client (fun _ e a => givesUser e a) signedOut).map
      fun app => (app.mounted, app.conf.quiet, app.conf.world.screen)) =
        some (some .welcome, true, .welcome) := by decide +kernel
  obtain ⟨app, taken, shown⟩ := Option.map_eq_some_iff.mp dashboard
  obtain ⟨app', taken', shown'⟩ := Option.map_eq_some_iff.mp welcome
  simp only [Prod.mk.injEq] at shown shown'
  have responds := app_responds base64Client _ none signedIn app (fun _ _ _ allowed => allowed) taken
  have responds' := app_responds base64Client _ none signedOut app' (fun _ _ _ allowed => allowed)
    taken'
  exact ⟨⟨app, taken, shown.1, responds.1 (by rw [shown.1]; rfl),
      responds.2 shown.2.1 (by rw [shown.1, shown.2.2])⟩,
    ⟨app', taken', shown'.1, responds'.1 (by rw [shown'.1]; rfl),
      responds'.2 shown'.2.1 (by rw [shown'.1, shown'.2.2])⟩⟩

/-! ## When the sign-in can be pressed -/

/-- Whenever `Register` is mounted, no run of `isLogged$` or `logout$` is in flight
any more: nobody signed out twice, and the run that went to the Dashboard is over. -/
def MountsAlone (base64 : String → String) (allows : Device → Eff → Answer → Bool)
    (session : Option Val) (events : List Event) : Prop :=
  ∀ past future app, events = past ++ .render :: future →
    (App.initial session).run base64 allows past = some app →
    app.conf.world.screen = .welcome → ∀ i t, app.conf.thread? i = some t →
      t.tag.action.family = .isLogged ∨ t.tag.action.family = .logout → t.rest.finished = true

/-- While `Register` is mounted no run signs out, at most one run of `isLogged$` is
in flight, and its flag is up until it has dispatched. -/
structure Waits (c : Conf Device Request Eff Answer) : Prop where
  stays : ∀ i t, c.thread? i = some t → t.tag.action.family = .logout → t.rest.finished = true
  one : ∀ i j t u, c.thread? i = some t → c.thread? j = some u →
    t.tag.action.family = .isLogged → u.tag.action.family = .isLogged →
    t.rest.finished = false → u.rest.finished = false → i = j
  up : Busy c .isLogged → c.world.store.inProgress .isLogged = true

section

variable {base64 : String → String} {allows : Device → Eff → Answer → Bool}
  {session : Option Val} {ls : List (Label Request Eff Answer)}
  {c c' : Conf Device Request Eff Answer}

theorem waits_mount
    (alone : ∀ i t, c.thread? i = some t →
      t.tag.action.family = .isLogged ∨ t.tag.action.family = .logout → t.rest.finished = true)
    (taken : (device base64 allows).step c (.start (.isLogged ⟨.welcome⟩)) = some c') :
    Waits c' := by
  constructor
  · intro i t here logout
    rcases Machine.thread?_start taken here with old | ⟨-, rfl⟩
    · exact alone i t old (Or.inr logout)
    · cases logout
  · intro i j t u here there isLogged isLogged' unfinished unfinished'
    have new {i : ℕ} {t : Thread Request Eff Answer} (here : c'.thread? i = some t)
        (isLogged : t.tag.action.family = .isLogged) (unfinished : t.rest.finished = false) :
        i = c.threads.length := by
      rcases Machine.thread?_start taken here with old | ⟨index, -⟩
      · cases unfinished.symm.trans (alone i t old (Or.inl isLogged))
      · exact index
    exact (new here isLogged unfinished).trans (new there isLogged' unfinished').symm
  · intro _
    cases taken
    exact inProgress_request _ (.isLogged ⟨.welcome⟩) .isLogged

theorem waits_signIn (waits : Waits c)
    (taken : (device base64 allows).step c (.start (.login ⟨.welcome⟩)) = some c') : Waits c' := by
  have old {i : ℕ} {t : Thread Request Eff Answer} (here : c'.thread? i = some t)
      (other : t.tag.action.family ≠ .login) : c.thread? i = some t := by
    rcases Machine.thread?_start taken here with old | ⟨-, rfl⟩
    · exact old
    · exact absurd rfl other
  constructor
  · intro i t here logout
    exact waits.stays i t (old here (by rw [logout]; simp)) logout
  · intro i j t u here there isLogged isLogged'
    exact waits.one i j t u (old here (by rw [isLogged]; simp))
      (old there (by rw [isLogged']; simp)) isLogged isLogged'
  · intro busy
    have before := waits.up (((busy_start taken (by simp)).mp busy).resolve_left
      (by simp [Request.action, Action.family]))
    cases taken
    show (c.world.store.reducer (Request.login ⟨.welcome⟩).action).inProgress .isLogged = true
    rw [inProgress_request, before, Bool.or_true]

theorem unfinished_of_head {t : Thread Request Eff Answer} {e : Eff}
    (standing : t.rest.head? = some e) : t.rest.finished = false := by
  have goesOn := Prog.head?_isSome t.rest
  rw [standing] at goesOn
  simpa using goesOn.symm

theorem unfinished_of_pending {t : Thread Request Eff Answer} (pending : Pending t = true) :
    t.rest.finished = false := by
  have goesOn := (Bool.and_eq_true_iff.mp pending).1
  rw [Prog.head?_isSome] at goesOn
  simpa using goesOn

theorem waits_act {i : ℕ} {e : Eff} {a : Answer} (waits : Waits c)
    (before : (device base64 allows).run (.initial (.initial session)) ls = some c)
    (taken : (device base64 allows).step c (.act i e a) = some c') : Waits c' := by
  obtain ⟨t, t', here, standing, point, -, world, there, tag, hist, -, rest⟩ :=
    device_act before taken
  -- a run in flight after the step was in flight before it
  have was {j : ℕ} {u' : Thread Request Eff Answer} (now : c'.thread? j = some u')
      (unfinished : u'.rest.finished = false) : ∃ u, c.thread? j = some u ∧ u.tag = u'.tag ∧
        u.rest.finished = false ∧ (Pending u' = true → Pending u = true) := by
    by_cases same : j = i
    · subst same
      cases there.symm.trans now
      refine ⟨t, here, tag.symm, unfinished_of_head standing, fun pending => ?_⟩
      have nothing : Trace.dispatched t'.hist = [] := by
        simpa [Pending] using (Bool.and_eq_true_iff.mp pending).2
      rw [hist, Trace.dispatched_append, List.append_eq_nil_iff] at nothing
      simp [Pending, standing, nothing.1]
    · exact ⟨u', (rest j same).symm.trans now, rfl, unfinished, id⟩
  constructor
  · intro j u now logout
    by_contra unfinished
    obtain ⟨u₀, earlier, sameTag, still, -⟩ := was now (by simpa using unfinished)
    cases still.symm.trans (waits.stays j u₀ earlier (sameTag ▸ logout))
  · intro j k u v now now' isLogged isLogged' unfinished unfinished'
    obtain ⟨u₀, earlier, sameTag, still, -⟩ := was now unfinished
    obtain ⟨v₀, earlier', sameTag', still', -⟩ := was now' unfinished'
    exact waits.one j k u₀ v₀ earlier earlier' (sameTag ▸ isLogged) (sameTag' ▸ isLogged') still
      still'
  · rintro ⟨j, u, now, isLogged, pending⟩
    obtain ⟨u₀, earlier, sameTag, still, pending₀⟩ := was now (unfinished_of_pending pending)
    have up := waits.up ⟨j, u₀, earlier, sameTag ▸ isLogged, pending₀ pending⟩
    rw [world]
    by_cases dispatches : ∃ action, e = .put action
    · rcases dispatches with ⟨action, rfl⟩
      have family := family_of_point point
      have unfinished := unfinished_of_head standing
      rw [Device.after_put]
      show (c.world.store.reducer action).inProgress .isLogged = true
      rw [inProgress_reducer, if_neg, if_neg]
      · exact up
      · rintro ⟨-, rfl⟩
        cases unfinished.symm.trans (waits.stays i t here family.symm)
      · intro own
        -- the run that dispatches would be the pending one, and it no longer is
        have same := waits.one i j t u₀ here earlier (family.symm.trans own) (sameTag ▸ isLogged)
          unfinished still
        subst same
        cases there.symm.trans now
        simp [Pending, hist] at pending
    · rw [Device.after_store (Eff.dispatched?_eq_none fun action same => dispatches ⟨action, same⟩)]
      exact up

theorem waits_run {events : List Event} {app : App}
    (alone : MountsAlone base64 allows session events)
    (taken : (App.initial session).run base64 allows events = some app) :
    app.mounted = some .welcome → Waits app.conf := by
  refine App.run_induction (motive := fun past app => ∀ future, events = past ++ future →
    app.mounted = some .welcome → Waits app.conf) ?_ ?_ taken [] (List.append_nil events).symm
  · intro _ _ mounted
    cases mounted
  rintro past before event after reached ih step future split mounted
  rw [List.append_assoc] at split
  obtain ⟨enabled, mounts, moved⟩ := App.of_step step
  obtain ⟨ls, earlier⟩ := App.projects reached
  rw [mounts] at mounted
  cases event with
  | render =>
    have shown : before.conf.world.screen = .welcome := Option.some.inj mounted
    rw [App.label?, if_pos shown, Option.toList_some, Machine.run_singleton] at moved
    exact waits_mount (alone past future before split reached shown) moved
  | press button =>
    have waits := ih _ split mounted
    have signIn : button = .signIn := by
      simp only [App.enabled, App.offers, App.view,
        show before.mounted = some .welcome from mounted, Option.any_some, Register.render]
        at enabled
      split at enabled
      · cases enabled
      · simpa [View.offers] using enabled
    subst signIn
    exact waits_signIn waits (Machine.run_singleton.symm.trans moved)
  | act i e a =>
    have waits := ih _ split mounted
    exact waits_act waits earlier (Machine.run_singleton.symm.trans moved)

end

/-- **The sign-in waits for `isLogged$`.** Where `Register` is only mounted once the
runs of `isLogged$` and `logout$` are over, the sign-in button is offered only when
every run of `isLogged$` has dispatched what it found. -/
theorem signIn_afterIsLogged (base64 : String → String)
    (allows : Device → Eff → Answer → Bool) (session : Option Val) (events : List Event) (app : App)
    (alone : MountsAlone base64 allows session events)
    (taken : (App.initial session).run base64 allows events = some app)
    (offered : app.offers .signIn = true) :
    app.mounted = some .welcome ∧ ∀ i t, app.conf.thread? i = some t →
      t.tag.action.family = .isLogged → Pending t = false := by
  have welcome : app.mounted = some .welcome ∧
      app.conf.world.store.inProgress .isLogged = false := by
    cases mounted : app.mounted with
    | none => simp [App.offers, App.view, mounted] at offered
    | some screen =>
      cases screen with
      | welcome =>
        cases up : app.conf.world.store.inProgress .isLogged with
        | false => exact ⟨rfl, rfl⟩
        | true => simp [App.offers, App.view, mounted, up, Register.render, View.offers] at offered
      | dashboard =>
        simp only [App.offers, App.view, mounted, Portal.render] at offered
        cases name : app.conf.world.store.getUser.prop "name" with
        | none => simp [name] at offered
        | some name' => simp [name, View.offers] at offered
  refine ⟨welcome.1, fun i t here isLogged => ?_⟩
  by_contra pending
  have up := (waits_run alone taken welcome.1).up ⟨i, t, here, isLogged, by simpa using pending⟩
  cases up.symm.trans welcome.2

/-- A run mounts `Register` alone if it does so at each place where it renders. -/
theorem mountsAlone_of_take {base64 : String → String} {allows : Device → Eff → Answer → Bool}
    {session : Option Val} {events : List Event}
    (each : ∀ i < events.length, events[i]? = some .render →
      ((App.initial session).run base64 allows (events.take i)).all (fun app =>
        app.conf.world.screen = .welcome → app.conf.threads.all fun t =>
          t.tag.action.family = .isLogged ∨ t.tag.action.family = .logout →
            t.rest.finished) = true) : MountsAlone base64 allows session events := by
  rintro past future app rfl reached welcome i t here family
  have alone := each past.length (by simp) (by simp)
  rw [List.take_left, reached, Option.all_some, decide_eq_true_eq] at alone
  have mem : t ∈ app.conf.threads := List.mem_of_getElem? here
  exact of_decide_eq_true (List.all_eq_true.mp (alone welcome) t mem) family

theorem signIn_afterIsLogged_signedOut :
    ∃ app, (App.initial none).run base64Client (fun _ _ _ => true) signedOut = some app ∧
      app.mounted = some .welcome ∧ ∀ i t, app.conf.thread? i = some t →
        t.tag.action.family = .isLogged → Pending t = false := by
  have offered : ((App.initial none).run base64Client (fun _ _ _ => true) signedOut).any
      (fun app => app.offers .signIn) = true := by decide +kernel
  obtain ⟨app, taken, offered⟩ := (Option.any_eq_true _ _).mp offered
  exact ⟨app, taken, signIn_afterIsLogged base64Client (fun _ _ _ => true) none signedOut app
    (mountsAlone_of_take (by decide +kernel)) taken offered⟩

/-- The user signs out twice; the second sign-out succeeds after `Register` is
mounted again. -/
def signedOutTwice : List Event :=
  startedByNobody ++
  [.press .signIn, .act 1 .signIn (.returns (.object [("user", annUser)])),
   .act 1 (.put (.loginSuccess annUser)) (.returns .undefined),
   .act 1 (.navigate ⟨.welcome⟩ .dashboard) (.returns (.bool true)), .render,
   .press .signOut, .press .signOut,
   .act 2 .signOut (.returns .undefined), .act 3 .signOut (.returns .undefined),
   .act 2 (.put .logoutSuccess) (.returns .undefined),
   .act 2 (.navigate ⟨.dashboard⟩ .welcome) (.returns (.bool true)), .render,
   .act 3 (.put .logoutSuccess) (.returns .undefined)]

/-- Then the sign-in is offered while `isLogged$` has found out nothing. -/
example :
    ((App.initial none).run base64Client (fun _ _ _ => true) signedOutTwice).any (fun app =>
      app.offers .signIn && (app.conf.thread? 4).any fun t =>
        t.tag = .isLogged ⟨.welcome⟩ && Pending t) = true := by
  decide +kernel

end GAMember
