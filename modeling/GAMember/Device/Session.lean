import GAMember.Device.System

/-!
# The Dashboard and the session

The Dashboard should only be shown to the user the Google SDK has signed in. The
SDK session, the stored user and the shown screen are set by separate steps of
runs that may overlap. What is read from the SDK must not be stale when it is
stored, and somebody must be signed in when the Dashboard is shown; then the
three agree whenever no run is in flight.
-/

namespace GAMember

/-- A Google SDK that answers by its session, and a navigator that does not fail. -/
def sdkAllows (d : Device) (e : Eff) (a : Answer) : Bool :=
  match e, a with
  | .isSignedIn, .returns v => v.truthy = d.session.isSome
  | .getCurrentUser, .returns v =>
      match d.session with
      | some user => v.truthy && v.prop "user" = some user
      | none => !v.truthy
  | .signInSilently, .returns v => d.session.isSome && v.prop "user" = d.session
  | .navigate _ _, .throws => false
  | _, _ => true

/-- When no run is in flight and the Dashboard is shown, the stored user is the
one the SDK has signed in. -/
def DashboardSignedIn (c : Conf Device Request Eff Answer) : Prop :=
  c.quiet = true → c.world.screen = .dashboard →
    c.world.session = some c.world.store.getUser

/-- A user is stored while the SDK still holds that user, and the Dashboard is
shown while somebody is signed in. -/
def upToDate (c : Conf Device Request Eff Answer) : Label Request Eff Answer → Bool
  | .act _ (.put action) _ => action.user?.all fun user => c.world.session = some user
  | .act _ (.navigate _ .dashboard) _ => c.world.session.isSome
  | _ => true

/-! ## Points -/

section

variable {r : Request} {hist : Trace} {next : Option Eff}

/-- A run goes to the Dashboard right after it has stored a user. -/
theorem stored_of_navigate {navigation : Navigation}
    (point : r.Point hist (some (.navigate navigation .dashboard))) :
    ∃ action a user, hist.getLast? = some (.put action, a) ∧ action.user? = some user := by
  cases r with
  | ecdRedirect user =>
    have outside := point.2 _ rfl
    cases outside
  | login navigation =>
    cases point with
    | stored => exact ⟨_, _, _, List.getLast?_concat, rfl⟩
    | database stored shown next => simp [Eff.readsDatabase] at next
  | isLogged navigation =>
    cases point with
    | reading reads next => cases next
    | stored => exact ⟨_, _, _, List.getLast?_concat, rfl⟩
  | logout navigation => cases point

/-- A user who signs in is stored next. -/
theorem stores_of_signIn {navigation : Navigation} {result user : Val}
    (point : LoginPoint navigation hist next)
    (last : hist.getLast? = some (.signIn, .returns result))
    (signedIn : signedInUser result = some user) : next = some (.put (.loginSuccess user)) := by
  obtain ⟨field, truthy⟩ := Option.filter_eq_some_iff.mp signedIn
  cases point with
  | start => simp at last
  | refused nothing =>
    cases last
    rw [Answer.prop_returns, field] at nothing
    cases nothing
  | nobody given falsy =>
    cases last
    cases field.symm.trans given
    rw [falsy] at truthy
    cases truthy
  | signedIn given _ =>
    cases last
    cases field.symm.trans given
    rfl
  | stored | failed => simp at last
  | database stored shown next =>
    simp only [List.getLast?_concat, Option.some.injEq, Prod.mk.injEq] at last
    simp [last.1, Eff.ofDatabase, Eff.readsDatabase] at shown
  | writing write =>
    rcases write with ⟨_, email, _, before, snapshot, -, -, -, -, rfl, -⟩
    simp at last
  | done stored database =>
    simp only [List.getLast?_concat, Option.some.injEq, Prod.mk.injEq] at last
    simp [last.1, Eff.ofDatabase, Eff.readsDatabase] at database

/-- Only `logout$` signs out. -/
theorem logout_of_signOut (point : r.Point hist (some .signOut)) :
    ∃ navigation, r = .logout navigation := by
  cases r with
  | ecdRedirect user =>
    have outside := point.2 .signOut rfl
    cases outside
  | login navigation =>
    cases point with
    | database stored shown next => simp [Eff.readsDatabase] at next
  | isLogged navigation =>
    cases point with
    | reading reads next => cases next
  | logout navigation => exact ⟨navigation, rfl⟩

theorem logout_of_logoutSuccess (point : r.Point hist (some (.put .logoutSuccess))) :
    ∃ navigation, r = .logout navigation := by
  cases r with
  | ecdRedirect user =>
    have outside := point.2 _ rfl
    cases outside
  | login navigation =>
    cases point with
    | database stored shown next => simp [Eff.readsDatabase] at next
  | isLogged navigation =>
    cases point with
    | reading reads next => cases next
  | logout navigation => exact ⟨navigation, rfl⟩

/-- After the sign-out a logout dispatches its success, and then goes to Welcome. -/
theorem leaves_of_logout {navigation : Navigation} (point : LogoutPoint navigation hist next) :
    (∀ v, hist.getLast? = some (.signOut, .returns v) → next = some (.put .logoutSuccess)) ∧
      ∀ a, hist.getLast? = some (.put .logoutSuccess, a) →
        next = some (.navigate navigation .welcome) := by
  cases point <;> simp

end

/-! ## The invariant -/

/-- Some run stands at the effect. -/
def StandsAt (c : Conf Device Request Eff Answer) (e : Eff) : Prop :=
  ∃ i t, c.thread? i = some t ∧ t.rest.head? = some e

/-- A session is that of the stored user, or its user is about to be stored, or
nothing leads to the Dashboard yet. -/
def SessionStored (c : Conf Device Request Eff Answer) : Prop :=
  ∀ user, c.world.session = some user →
    c.world.store.getUser = user ∨ StandsAt c (.put (.loginSuccess user)) ∨
      (c.world.screen = .welcome ∧ ∀ navigation, ¬ StandsAt c (.navigate navigation .dashboard))

/-- Without a session the Dashboard is about to be left. -/
def DashboardLeft (c : Conf Device Request Eff Answer) : Prop :=
  c.world.session = none → c.world.screen = .dashboard →
    StandsAt c (.put .logoutSuccess) ∨ ∃ navigation, StandsAt c (.navigate navigation .welcome)

section

variable {base64 : String → String} {session : Option Val}
  {ls : List (Label Request Eff Answer)} {c c' : Conf Device Request Eff Answer}

/-- Together they give the agreement when no run is in flight. -/
theorem dashboardSignedIn_of_invariant (stored : SessionStored c) (left : DashboardLeft c) :
    DashboardSignedIn c := by
  intro quiet dashboard
  have nowhere (e : Eff) : ¬ StandsAt c e := by
    intro stands
    rcases stands with ⟨i, t, here, standing⟩
    have ended := List.all_eq_true.mp quiet t (List.mem_of_getElem? here)
    have goesOn : t.rest.head?.isSome = true := by rw [standing]; rfl
    simp [Prog.head?_isSome, ended] at goesOn
  cases signedIn : c.world.session with
  | none =>
    rcases left signedIn dashboard with leaving | ⟨navigation, leaving⟩
    · exact absurd leaving (nowhere _)
    · exact absurd leaving (nowhere _)
  | some user =>
    rcases stored user signedIn with same | storing | ⟨welcome, -⟩
    · rw [same]
    · exact absurd storing (nowhere _)
    · rw [dashboard] at welcome
      cases welcome

theorem standsAt_start {r : Request} {e : Eff}
    (taken : (device base64 sdkAllows).step c (.start r) = some c') (standing : StandsAt c e) :
    StandsAt c' e := by
  rcases standing with ⟨i, t, here, standing⟩
  exact ⟨i, t, Machine.thread?_of_start taken here, standing⟩

/-- A run that has just started does not go to the Dashboard. -/
theorem standsAt_of_start {r : Request} {navigation : Navigation}
    (before : (device base64 sdkAllows).run (.initial (.initial session)) ls = some c)
    (taken : (device base64 sdkAllows).step c (.start r) = some c')
    (standing : StandsAt c' (.navigate navigation .dashboard)) :
    StandsAt c (.navigate navigation .dashboard) := by
  rcases standing with ⟨i, t, there, standing⟩
  have point := thread_point (Machine.run_concat before taken) there
  rw [standing] at point
  rcases Machine.thread?_start taken there with old | ⟨-, rfl⟩
  · exact ⟨i, t, old, standing⟩
  · obtain ⟨action, a, user, last, -⟩ := stored_of_navigate point
    cases last

section

variable {i : Nat} {e : Eff} {t t' : Thread Request Eff Answer} (here : c.thread? i = some t)
  (standing : t.rest.head? = some e) (there : c'.thread? i = some t')
  (rest : ∀ j, j ≠ i → c'.thread? j = c.thread? j)

include here standing rest in
theorem standsAt_act {e' : Eff} (other : e' ≠ e) (stands : StandsAt c e') : StandsAt c' e' := by
  rcases stands with ⟨j, u, there, stands⟩
  refine ⟨j, u, ?_, stands⟩
  rw [rest j ?_]
  · exact there
  · intro same
    subst same
    cases here.symm.trans there
    exact other (Option.some.inj (stands.symm.trans standing))

include there rest in
theorem standsAt_of_act {e' : Eff} (stands : StandsAt c' e') :
    StandsAt c e' ∨ t'.rest.head? = some e' := by
  rcases stands with ⟨j, u, there', stands⟩
  by_cases same : j = i
  · subst same
    cases there.symm.trans there'
    exact Or.inr stands
  · exact Or.inl ⟨j, u, (rest j same).symm.trans there', stands⟩

include here standing there rest in
/-- A step that neither signs in nor stores a user leaves its session as it was. -/
theorem stored_of_kept {a : Answer} (last : t'.hist.getLast? = some (e, a))
    (point : t'.tag.Point t'.hist t'.rest.head?) (stored : SessionStored c) (user : Val)
    (signedIn : c.world.session = some user)
    (kept : c'.world.store.getUser = c.world.store.getUser)
    (storesNone : ∀ action, e = .put action → action.user? = none)
    (screen : c.world.screen = .welcome →
      (∀ navigation, e ≠ .navigate navigation .dashboard) → c'.world.screen = .welcome) :
    c'.world.store.getUser = user ∨ StandsAt c' (.put (.loginSuccess user)) ∨
      (c'.world.screen = .welcome ∧
        ∀ navigation, ¬ StandsAt c' (.navigate navigation .dashboard)) := by
  rcases stored user signedIn with same | storing | ⟨welcome, nowhere⟩
  · exact Or.inl (kept.trans same)
  · refine Or.inr (Or.inl (standsAt_act here standing rest ?_ storing))
    intro same
    subst same
    cases storesNone _ rfl
  · refine Or.inr (Or.inr ⟨screen welcome ?_, fun navigation stands => ?_⟩)
    · intro navigation same
      subst same
      exact nowhere navigation ⟨i, t, here, standing⟩
    · rcases standsAt_of_act there rest stands with old | new
      · exact nowhere navigation old
      · rw [new] at point
        obtain ⟨action, b, user, put, storesUser⟩ := stored_of_navigate point
        cases last.symm.trans put
        rw [storesNone action rfl] at storesUser
        cases storesUser

end

theorem sessionStored_act {i : Nat} {e : Eff} {a : Answer}
    (before : (device base64 sdkAllows).run (.initial (.initial session)) ls = some c)
    (taken : (device base64 sdkAllows).step c (.act i e a) = some c')
    (fresh : upToDate c (.act i e a) = true) (stored : SessionStored c) : SessionStored c' := by
  obtain ⟨t, t', here, standing, point, admitted, world, there, tag, hist, point', rest⟩ :=
    device_act before taken
  intro user signedIn
  have last : t'.hist.getLast? = some (e, a) := by rw [hist, List.getLast?_concat]
  have keep := stored_of_kept here standing there rest last point' stored user
  rw [world] at signedIn
  cases e with
  | put action =>
    rw [Device.after_put] at world signedIn
    cases storesUser : action.user? with
    | some u =>
      have held : c.world.session = some u := by
        simpa [upToDate, storesUser] using fresh
      cases signedIn.symm.trans held
      left
      rw [world]
      show (c.world.store.reducer action).getUser = user
      rw [RootState.getUser_reducer, storesUser]
      rfl
    | none =>
      refine keep signedIn ?_ ?_ fun welcome _ => by rw [world]; exact welcome
      · rw [world]
        show (c.world.store.reducer action).getUser = _
        rw [RootState.getUser_reducer, storesUser]
        rfl
      · intro _ same
        cases same
        exact storesUser
  | navigate navigation screen =>
    cases a with
    | throws => cases admitted
    | returns v =>
      refine keep signedIn (by rw [world]; rfl) (by simp) fun welcome notDashboard => ?_
      cases screen with
      | welcome => rw [world]; rfl
      | dashboard => exact absurd rfl (notDashboard navigation)
  | signIn =>
    cases a with
    | throws => exact keep signedIn (by rw [world]; rfl) (by simp) fun welcome _ => world ▸ welcome
    | returns result =>
      cases given : signedInUser result with
      | none =>
        simp only [Device.after, given, Option.none_or] at signedIn world
        exact keep signedIn (by rw [world]) (by simp) fun welcome _ => world ▸ welcome
      | some u =>
        simp only [Device.after, given, Option.some_or, Option.some.injEq] at signedIn
        subst signedIn
        obtain ⟨-, navigation, login⟩ := login_of_signIn point
        rw [tag, login] at point'
        exact Or.inr (Or.inl ⟨i, t', there, stores_of_signIn point' last given⟩)
  | signOut =>
    cases a with
    | throws => exact keep signedIn (by rw [world]; rfl) (by simp) fun welcome _ => world ▸ welcome
    | returns v => cases signedIn
  | _ =>
    have same : c'.world = c.world := by cases a <;> exact world
    rw [← world, same] at signedIn
    exact keep signedIn (by rw [same]) (by simp) fun welcome _ => same ▸ welcome

theorem dashboardLeft_act {i : Nat} {e : Eff} {a : Answer}
    (before : (device base64 sdkAllows).run (.initial (.initial session)) ls = some c)
    (taken : (device base64 sdkAllows).step c (.act i e a) = some c')
    (fresh : upToDate c (.act i e a) = true) (left : DashboardLeft c) : DashboardLeft c' := by
  obtain ⟨t, t', here, standing, point, admitted, world, there, tag, hist, point', rest⟩ :=
    device_act before taken
  intro signedOut dashboard
  have last : t'.hist.getLast? = some (e, a) := by rw [hist, List.getLast?_concat]
  -- a step of a run that does not stand at either effect
  have keep (session : c.world.session = none) (screen : c.world.screen = .dashboard)
      (notPut : e ≠ .put .logoutSuccess)
      (notNavigate : ∀ navigation, e ≠ .navigate navigation .welcome) :
      StandsAt c' (.put .logoutSuccess) ∨
        ∃ navigation, StandsAt c' (.navigate navigation .welcome) := by
    rcases left session screen with leaving | ⟨navigation, leaving⟩
    · exact Or.inl (standsAt_act here standing rest notPut.symm leaving)
    · exact Or.inr ⟨navigation,
        standsAt_act here standing rest (notNavigate navigation).symm leaving⟩
  rw [world] at signedOut dashboard
  cases e with
  | put action =>
    rw [Device.after_put] at signedOut dashboard
    by_cases success : action = .logoutSuccess
    · subst success
      obtain ⟨navigation, logout⟩ := logout_of_logoutSuccess point
      rw [tag, logout] at point'
      exact Or.inr ⟨navigation, i, t', there, (leaves_of_logout point').2 a last⟩
    · refine keep signedOut dashboard ?_ (by simp)
      intro same
      exact success (Eff.put.inj same)
  | navigate navigation screen =>
    cases a with
    | throws => cases admitted
    | returns v =>
      cases screen with
      | welcome => cases dashboard
      | dashboard =>
        have held : c.world.session.isSome = true := fresh
        rw [show c.world.session = none from signedOut] at held
        cases held
  | signIn =>
    cases a with
    | throws => exact keep signedOut dashboard (by simp) (by simp)
    | returns result =>
      simp only [Device.after, Option.or_eq_none_iff] at signedOut
      exact keep signedOut.2 dashboard (by simp) (by simp)
  | signOut =>
    cases a with
    | throws => exact keep signedOut dashboard (by simp) (by simp)
    | returns v =>
      obtain ⟨navigation, logout⟩ := logout_of_signOut point
      rw [tag, logout] at point'
      exact Or.inl ⟨i, t', there, (leaves_of_logout point').1 v last⟩
  | _ =>
    have same : c'.world = c.world := by cases a <;> exact world
    rw [← world, same] at signedOut dashboard
    exact keep signedOut dashboard (by simp) (by simp)

/-- Both halves of the invariant hold in every state of a run whose steps are up to
date. -/
theorem session_invariant
    (taken : (device base64 sdkAllows).run (.initial (.initial session)) ls = some c)
    (fresh : (device base64 sdkAllows).AllSteps (upToDate · · = true)
      (.initial (.initial session)) ls) :
    SessionStored c ∧ DashboardLeft c := by
  refine Machine.run_induction_of_allSteps (m := device base64 sdkAllows)
    (c := .initial (.initial session)) (P := (upToDate · · = true))
    (motive := fun _ c => SessionStored c ∧ DashboardLeft c) ⟨?_, ?_⟩ ?_ taken fresh
  · refine fun user _ => Or.inr (Or.inr ⟨rfl, ?_⟩)
    intro navigation stands
    rcases stands with ⟨i, t, none, -⟩
    simp [Conf.thread?] at none
  · intro _ dashboard
    cases dashboard
  · intro ls c l c' before invariant fresh step
    rcases invariant with ⟨stored, left⟩
    cases l with
    | act i e a =>
      exact ⟨sessionStored_act before step fresh stored, dashboardLeft_act before step fresh left⟩
    | start r =>
      have world : c'.world = { c.world with store := c.world.store.reducer r.action } := by
        cases step
        rfl
      have sameUser : c'.world.store.getUser = c.world.store.getUser := by
        rw [world]
        show (c.world.store.reducer r.action).getUser = _
        rw [RootState.getUser_reducer]
        cases r <;> rfl
      constructor
      · intro user signedIn
        rw [world] at signedIn
        rcases stored user signedIn with same | storing | ⟨welcome, nowhere⟩
        · exact Or.inl (sameUser.trans same)
        · exact Or.inr (Or.inl (standsAt_start step storing))
        · refine Or.inr (Or.inr ⟨by rw [world]; exact welcome, fun navigation stands => ?_⟩)
          exact nowhere navigation (standsAt_of_start before step stands)
      · intro signedOut dashboard
        rw [world] at signedOut dashboard
        rcases left signedOut dashboard with leaving | ⟨navigation, leaving⟩
        · exact Or.inl (standsAt_start step leaving)
        · exact Or.inr ⟨navigation, standsAt_start step leaving⟩

/-- **In every run whose steps are up to date** the Dashboard is shown, when no saga
is in flight, only with a session, and the stored user is that of the session. -/
theorem dashboardSignedIn_of_upToDate (base64 : String → String) (session : Option Val)
    (ls : List (Label Request Eff Answer)) (c : Conf Device Request Eff Answer)
    (taken : (device base64 sdkAllows).run (.initial (.initial session)) ls = some c)
    (fresh : (device base64 sdkAllows).AllSteps (upToDate · · = true)
      (.initial (.initial session)) ls) :
    DashboardSignedIn c :=
  dashboardSignedIn_of_invariant (session_invariant taken fresh).1 (session_invariant taken fresh).2

end

/-- `isLogged$` reads the current user. -/
def readsUser : List (Label Request Eff Answer) :=
  [.start (.isLogged ⟨.welcome⟩),
    .act 0 .configure (.returns .undefined),
    .act 0 .app (.returns .undefined),
    .act 0 .isSignedIn (.returns (.bool true)),
    .act 0 .getCurrentUser (.returns (.object [("user", annUser)]))]

/-- `isLogged$` stores the user it has read and goes to the Dashboard. -/
def showsUser : List (Label Request Eff Answer) :=
  [.act 0 (.put (.isLoggedSuccess (some annUser))) (.returns .undefined),
    .act 0 (.navigate ⟨.welcome⟩ .dashboard) (.returns .undefined),
    .act 0 (.put (.isLoggedSuccess none)) (.returns .undefined)]

/-- The user logs out. -/
def logsOut : List (Label Request Eff Answer) :=
  [.start (.logout ⟨.dashboard⟩),
    .act 1 .signOut (.returns .undefined),
    .act 1 (.put .logoutSuccess) (.returns .undefined),
    .act 1 (.navigate ⟨.dashboard⟩ .welcome) (.returns .undefined)]

/-- Without a logout in between, the Dashboard shows the user of the session. -/
theorem dashboardSignedIn_showsUser : ∃ c : Conf Device Request Eff Answer,
    (device base64Client sdkAllows).run (.initial (.initial (some annUser)))
        (readsUser ++ showsUser) = some c ∧
      c.quiet = true ∧ c.world.screen = .dashboard ∧ DashboardSignedIn c := by
  have found : ((device base64Client sdkAllows).run (.initial (.initial (some annUser)))
      (readsUser ++ showsUser)).map (fun c => (c.quiet, c.world.screen)) =
        some (true, .dashboard) := by decide +kernel
  obtain ⟨c, taken, shown⟩ := Option.map_eq_some_iff.mp found
  simp only [Prod.mk.injEq] at shown
  exact ⟨c, taken, shown.1, shown.2, dashboardSignedIn_of_upToDate base64Client (some annUser)
    (readsUser ++ showsUser) c taken (by decide +kernel)⟩

/-- A logout between the read and the store leaves the Dashboard without a session. -/
theorem not_dashboardSignedIn_logsOut :
    ¬ ∀ c, (device base64Client sdkAllows).run (.initial (.initial (some annUser)))
      (readsUser ++ logsOut ++ showsUser) = some c → DashboardSignedIn c := by
  intro every
  have found : ((device base64Client sdkAllows).run (.initial (.initial (some annUser)))
      (readsUser ++ logsOut ++ showsUser)).map
        (fun c => (c.quiet, c.world.screen, c.world.session)) =
      some (true, .dashboard, none) := by decide +kernel
  obtain ⟨c, taken, found⟩ := Option.map_eq_some_iff.mp found
  simp only [Prod.mk.injEq] at found
  rcases found with ⟨quiet, dashboard, signedOut⟩
  have signedIn := every c taken quiet dashboard
  rw [signedOut] at signedIn
  cases signedIn

end GAMember
