import GAMember.Device.System
import GAMember.State.Flags

/-!
# In-progress flags and runs in flight

One flag of the store stands for all runs of a saga. A run is in flight from its
start to its last dispatch, or to its end where it dispatches nothing. The flags
of the welcome sagas tell which of them have a run in flight exactly in those
runs of the system in which each step is orderly: a run dispatches once, and only
when it is the last one of its saga that has not.
-/

namespace GAMember

/-! ## What a flag should tell -/

/-- A run dispatches some action along the labels. -/
def Dispatches (i : Nat) (ls : List (Label Request Eff Answer)) : Prop :=
  ∃ action a, Label.act i (.put action) a ∈ ls

/-- After `past` and before `future`, run `i` is started and has not ended. -/
def InFlight (past future : List (Label Request Eff Answer))
    (c : Conf Device Request Eff Answer) (i : Nat) : Prop :=
  ∃ t, c.thread? i = some t ∧ t.rest.finished = false ∧ (Dispatches i past → Dispatches i future)

/-- In every state of the run, the flag of a welcome saga is up exactly when one
of its runs is in flight. -/
def FlagsTellRuns (m : Machine Device Request Eff Answer) (d : Device)
    (ls : List (Label Request Eff Answer)) : Prop :=
  ∀ past future c, ls = past ++ future → m.run (.initial d) past = some c →
    ∀ X, X ≠ .ecdRedirect →
      (c.world.store.inProgress X = true ↔
        ∃ i t, c.thread? i = some t ∧ t.tag.action.family = X ∧ InFlight past future c i)

/-! ## Orderly steps -/

/-- The run goes on and has not dispatched anything. -/
def Pending (t : Thread Request Eff Answer) : Bool :=
  t.rest.head?.isSome && (Trace.dispatched t.hist).isEmpty

/-- Apart from run `i`, no run of the family is pending. -/
def NoOther (c : Conf Device Request Eff Answer) (i : Nat) (X : Family) : Prop :=
  ∀ j t, j ≠ i → c.thread? j = some t → t.tag.action.family = X → Pending t = false

/-- A welcome saga dispatches for the first time in its run, while no other run of
it is pending, and no run of `isLogged$` either where a logout succeeds. A
sign-in that gives no user does not end the last pending login. -/
def Orderly (c : Conf Device Request Eff Answer) : Label Request Eff Answer → Prop
  | .act i (.put action) _ => action.family ≠ .ecdRedirect →
      (∀ t, c.thread? i = some t → Trace.dispatched t.hist = []) ∧
        NoOther c i action.family ∧ (action = .logoutSuccess → NoOther c i .isLogged)
  | .act i .signIn a => ∀ user, a.prop "user" = some user → user.truthy = false →
      ¬ NoOther c i .login
  | _ => True

/-! ## Points -/

section

variable {r : Request} {hist : Trace} {action : Action}

theorem family_of_point (point : r.Point hist (some (.put action))) :
    action.family = r.action.family := by
  cases r with
  | ecdRedirect user =>
    have own : action.family = .ecdRedirect := by simpa [Eff.ofWelcome] using point.2 _ rfl
    exact own
  | login navigation =>
    cases point with
    | database stored shown next =>
      rcases next with database | failure
      · cases database
      · cases failure
        rfl
    | _ => rfl
  | isLogged navigation =>
    cases point with
    | reading reads next => cases next
    | _ => rfl
  | logout navigation => cases point <;> rfl

theorem phase_of_point (point : r.Point hist (some (.put action)))
    (welcome : action.family ≠ .ecdRedirect) : action.phase ≠ .request := by
  cases r with
  | ecdRedirect user => exact absurd (family_of_point point) welcome
  | login navigation =>
    cases point with
    | database stored shown next =>
      rcases next with database | failure
      · cases database
      · cases failure
        simp [Action.phase]
    | _ => simp [Action.phase]
  | isLogged navigation =>
    cases point with
    | reading reads next => cases next
    | _ => simp [Action.phase]
  | logout navigation => cases point <;> simp [Action.phase]

/-- A welcome run that ends without a dispatch is a login that got no user. -/
theorem silent_of_point (point : r.Point hist none) (silent : Trace.dispatched hist = [])
    (welcome : r.action.family ≠ .ecdRedirect) :
    r.action.family = .login ∧ ∃ a user, hist = [(.signIn, a)] ∧
      a.prop "user" = some user ∧ user.truthy = false := by
  cases r with
  | ecdRedirect user => exact absurd rfl welcome
  | login navigation =>
    cases point with
    | nobody given falsy => exact ⟨rfl, _, _, rfl, given, falsy⟩
    | done stored database => simp [stored] at silent
    | failed => simp at silent
  | isLogged navigation =>
    cases point with
    | done last => simp at silent
  | logout navigation =>
    cases point with
    | shown stored => simp [stored] at silent
    | failed => simp at silent

end

/-! ## One step -/

/-- Some run of the family is pending. -/
def Busy (c : Conf Device Request Eff Answer) (X : Family) : Prop :=
  ∃ i t, c.thread? i = some t ∧ t.tag.action.family = X ∧ Pending t = true

section

variable {base64 : String → String} {allows : Device → Eff → Answer → Bool} {d : Device}
  {ls : List (Label Request Eff Answer)} {c c' : Conf Device Request Eff Answer}
  {X : Family}

theorem busy_iff {i : Nat} {t : Thread Request Eff Answer} (here : c.thread? i = some t) :
    Busy c X ↔ (t.tag.action.family = X ∧ Pending t = true) ∨ ¬ NoOther c i X := by
  constructor
  · intro busy
    rcases busy with ⟨j, u, there, own, pending⟩
    by_cases same : j = i
    · subst same
      cases here.symm.trans there
      exact Or.inl ⟨own, pending⟩
    · apply Or.inr
      intro none
      rw [none j u same there own] at pending
      cases pending
  · intro either
    rcases either with ⟨own, pending⟩ | other
    · exact ⟨i, t, here, own, pending⟩
    · simp only [NoOther, not_forall, Bool.not_eq_false] at other
      rcases other with ⟨j, u, -, there, own, pending⟩
      exact ⟨j, u, there, own, pending⟩

theorem noOther_congr {i : Nat} (rest : ∀ j, j ≠ i → c'.thread? j = c.thread? j) :
    NoOther c' i X ↔ NoOther c i X := by
  apply forall_congr'
  intro j
  apply forall_congr'
  intro u
  apply forall_congr'
  intro other
  rw [rest j other]

/-- A request is pending as soon as its run has started. -/
theorem busy_start {r : Request}
    (taken : (device base64 allows).step c (.start r) = some c') (welcome : X ≠ .ecdRedirect) :
    Busy c' X ↔ r.action.family = X ∨ Busy c X := by
  constructor
  · intro busy
    rcases busy with ⟨i, t, there, own, pending⟩
    rcases Machine.thread?_start taken there with old | ⟨-, rfl⟩
    · exact Or.inr ⟨i, t, old, own, pending⟩
    · exact Or.inl own
  · intro either
    rcases either with own | ⟨i, t, there, own, pending⟩
    · refine ⟨c.threads.length, ⟨r, [], takeEvery base64 r⟩, ?_, own, ?_⟩
      · cases taken
        simp [Conf.thread?, device]
      · cases r with
        | ecdRedirect user => exact absurd own.symm welcome
        | _ => rfl
    · exact ⟨i, t, Machine.thread?_of_start taken there, own, pending⟩

/-- The flags of the welcome sagas tell which of them have a pending run. -/
def FlagsTellBusy (c : Conf Device Request Eff Answer) : Prop :=
  ∀ X, X ≠ .ecdRedirect → (c.world.store.inProgress X = true ↔ Busy c X)

theorem flagsTellBusy_start {r : Request} (tell : FlagsTellBusy c)
    (taken : (device base64 allows).step c (.start r) = some c') : FlagsTellBusy c' := by
  intro X welcome
  rw [busy_start taken welcome, ← tell X welcome]
  cases taken
  have reduced : (c.world.store.reducer r.action).inProgress X =
      (decide (r.action.family = X) || c.world.store.inProgress X) := by
    rw [inProgress_reducer]
    cases r <;> cases X <;> simp [Request.action, Action.family, Action.phase]
  simp [device, reduced]

theorem flagsTellBusy_act {i : Nat} {e : Eff} {a : Answer}
    (before : (device base64 allows).run (.initial d) ls = some c) (tell : FlagsTellBusy c)
    (orderly : Orderly c (.act i e a))
    (taken : (device base64 allows).step c (.act i e a) = some c') : FlagsTellBusy c' := by
  obtain ⟨t, t', here, standing, point, -, world, there, tag, hist, point', rest⟩ :=
    device_act before taken
  intro X welcome
  have was := tell X welcome
  rw [busy_iff here] at was
  rw [busy_iff there, noOther_congr rest, tag, world]
  by_cases dispatches : ∃ action, e = .put action
  · rcases dispatches with ⟨action, rfl⟩
    have family := family_of_point point
    have ended : Pending t' = false := by simp [Pending, hist]
    rw [Device.after_put]
    show ((c.world.store.reducer action).inProgress X = true ↔ _)
    rw [inProgress_reducer, ended, ← family]
    by_cases own : action.family = X
    · -- the flag goes down, and no other run of the family is pending
      subst own
      have phase := phase_of_point point welcome
      have others := (orderly welcome).2.1
      simp [phase, others]
    · by_cases logout : X = .isLogged ∧ action = .logoutSuccess
      · rcases logout with ⟨rfl, rfl⟩
        have others := (orderly (by simp [Action.family])).2.2 rfl
        simp [Action.family, others]
      · rw [if_neg own, if_neg logout, was, ← family]
        simp [own]
  · have silent : e.dispatched? = none := Eff.dispatched?_eq_none fun action same =>
      dispatches ⟨action, same⟩
    have dispatched : Trace.dispatched t'.hist = Trace.dispatched t.hist := by simp [hist, silent]
    rw [Device.after_store silent, was]
    by_cases own : t.tag.action.family = X
    · subst own
      cases ends : t'.rest.head? with
      | some next => simp [Pending, standing, ends, dispatched]
      | none =>
        rw [ends] at point'
        by_cases nothing : Trace.dispatched t.hist = []
        · -- the run ends without a dispatch: a login that got no user
          obtain ⟨login, a₀, user, signIn, given, falsy⟩ :=
            silent_of_point point' (dispatched.trans nothing) (tag ▸ welcome)
          obtain ⟨-, rfl, rfl⟩ : t.hist = [] ∧ e = .signIn ∧ a = a₀ := by
            simpa using List.append_inj' (hist.symm.trans signIn : _ = [] ++ _) rfl
          rw [tag] at login
          have others := orderly user given falsy
          rw [← login] at others
          simp [others]
        · simp [Pending, standing, ends, nothing]
    · simp [own]

/-- The flags tell which sagas have a pending run, as long as the steps are orderly. -/
theorem flagsTellBusy_run {session : Option Val}
    (taken : (device base64 allows).run (.initial (.initial session)) ls = some c)
    (orderly : (device base64 allows).AllSteps Orderly (.initial (.initial session)) ls) :
    FlagsTellBusy c := by
  refine Machine.run_induction_of_allSteps (m := device base64 allows)
    (c := .initial (.initial session)) (P := Orderly) (motive := fun _ c => FlagsTellBusy c)
    ?_ ?_ taken orderly
  · intro X welcome
    refine iff_of_false ?_ ?_
    · cases X <;> simp [Device.initial, RootState.initialState, RootState.inProgress,
        WelcomeState.initialState] at welcome ⊢
    · intro none
      rcases none with ⟨i, t, none, -⟩
      simp [Conf.thread?] at none
  · intro ls c l c' before tell orderly step
    cases l with
    | start r => exact flagsTellBusy_start tell step
    | act i e a => exact flagsTellBusy_act before tell orderly step

/-! ## Runs in flight -/

theorem dispatches_iff (taken : (device base64 allows).run (.initial d) ls = some c) {i : Nat}
    {t : Thread Request Eff Answer} (here : c.thread? i = some t) :
    Dispatches i ls ↔ Trace.dispatched t.hist ≠ [] := by
  constructor
  · intro dispatches none
    rcases dispatches with ⟨action, a, member⟩
    have silent := List.filterMap_eq_nil_iff.mp none _ (Machine.mem_hist taken here member)
    cases silent
  · intro some
    obtain ⟨action, member⟩ := List.exists_mem_of_ne_nil _ some
    obtain ⟨⟨e, a⟩, answered, dispatched⟩ := List.mem_filterMap.mp member
    have put : e = .put action := by
      cases e <;> simp [Eff.dispatched?] at dispatched
      exact congrArg _ dispatched
    subst put
    exact ⟨action, a, Machine.mem_of_mem_hist taken here answered⟩

/-- No welcome run dispatches again after it has dispatched. -/
def DispatchesOnce (m : Machine Device Request Eff Answer) (d : Device)
    (ls : List (Label Request Eff Answer)) : Prop :=
  ∀ before i action a after c t, ls = before ++ .act i (.put action) a :: after →
    m.run (.initial d) before = some c → c.thread? i = some t → action.family ≠ .ecdRedirect →
    Trace.dispatched t.hist = []

/-- Where every welcome run dispatches once, the runs in flight are the pending ones. -/
theorem inFlight_iff {past future : List (Label Request Eff Answer)}
    (once : DispatchesOnce (device base64 allows) d (past ++ future))
    (possible : ((device base64 allows).run (.initial d) (past ++ future)).isSome = true)
    (taken : (device base64 allows).run (.initial d) past = some c) {i : Nat}
    {t : Thread Request Eff Answer} (here : c.thread? i = some t)
    (welcome : t.tag.action.family ≠ .ecdRedirect) :
    InFlight past future c i ↔ Pending t = true := by
  have finished : t.rest.finished = false ↔ t.rest.head?.isSome = true := by
    simp [Prog.head?_isSome]
  constructor
  · intro flying
    rcases flying with ⟨u, there, goesOn, later⟩
    cases here.symm.trans there
    by_cases nothing : Trace.dispatched t.hist = []
    · simp [Pending, finished.mp goesOn, nothing]
    · obtain ⟨action, a, member⟩ := later ((dispatches_iff taken here).mpr nothing)
      obtain ⟨middle, after, rfl⟩ := List.append_of_mem member
      obtain ⟨c', whole⟩ := Option.isSome_iff_exists.mp possible
      rw [← List.append_assoc] at whole
      obtain ⟨c₁, c₂, reached, step, -⟩ := Machine.run_split_eq_some whole
      obtain ⟨t₁, -, there, -, point, -⟩ := device_act reached step
      obtain ⟨c₀, first, second⟩ := Machine.run_append_eq_some reached
      cases taken.symm.trans first
      obtain ⟨t₂, there', tag, grown⟩ := Machine.thread?_persists_run second here
      cases there.symm.trans there'
      have family := family_of_point point
      have earlier := once (past ++ middle) i action a after c₁ t₁ (by simp) reached there
        (by rw [family, tag]; exact welcome)
      rcases grown with ⟨more, grown⟩
      rw [← grown, Trace.dispatched_append] at earlier
      exact absurd (List.append_eq_nil_iff.mp earlier).1 nothing
  · intro pending
    simp only [Pending, Bool.and_eq_true, List.isEmpty_iff] at pending
    refine ⟨t, here, finished.mpr pending.1, fun dispatched => ?_⟩
    exact absurd pending.2 ((dispatches_iff taken here).mp dispatched)

theorem tells_iff {past future : List (Label Request Eff Answer)}
    (once : DispatchesOnce (device base64 allows) d (past ++ future))
    (possible : ((device base64 allows).run (.initial d) (past ++ future)).isSome = true)
    (taken : (device base64 allows).run (.initial d) past = some c) (welcome : X ≠ .ecdRedirect) :
    (∃ i t, c.thread? i = some t ∧ t.tag.action.family = X ∧ InFlight past future c i) ↔
      Busy c X := by
  refine exists_congr fun i => exists_congr fun t => and_congr_right fun here =>
    and_congr_right fun own => inFlight_iff once possible taken here ?_
  rw [own]
  exact welcome

theorem dispatchesOnce_of_orderly
    (orderly : (device base64 allows).AllSteps Orderly (.initial d) ls)
    (possible : ((device base64 allows).run (.initial d) ls).isSome = true) :
    DispatchesOnce (device base64 allows) d ls := by
  intro before i action a after c t split reached here welcome
  subst split
  obtain ⟨c', whole⟩ := Option.isSome_iff_exists.mp possible
  obtain ⟨c₁, c₂, first, step, -⟩ := Machine.run_split_eq_some whole
  cases reached.symm.trans first
  exact ((Machine.allSteps_iff.mp orderly before _ after c c₂ rfl reached step) welcome).1 t here

/-- After a dispatch the flag is down, so a run that is to dispatch again is missed. -/
theorem dispatchesOnce_of_tell (tell : FlagsTellRuns (device base64 allows) d ls)
    (possible : ((device base64 allows).run (.initial d) ls).isSome = true) :
    DispatchesOnce (device base64 allows) d ls := by
  intro before i action a after c t split reached here welcome
  subst split
  by_contra again
  obtain ⟨earlier, b, member⟩ := (dispatches_iff reached here).mpr again
  obtain ⟨first, middle, rfl⟩ := List.append_of_mem member
  obtain ⟨c', whole⟩ := Option.isSome_iff_exists.mp possible
  obtain ⟨c₀, c₁, reached₀, step₀, rest₁⟩ := Machine.run_split_eq_some reached
  obtain ⟨c₂, c₃, reached₂, step, -⟩ := Machine.run_split_eq_some whole
  cases reached.symm.trans reached₂
  obtain ⟨t₀, t₁, -, -, point₀, -, world, there, tag, -⟩ := device_act reached₀ step₀
  obtain ⟨t', -, here', standing, point, -⟩ := device_act reached step
  cases here.symm.trans here'
  obtain ⟨t₂, here₂, tag₂, -⟩ := Machine.thread?_persists_run rest₁ there
  cases here.symm.trans here₂
  have same : earlier.family = t₁.tag.action.family := by rw [tag]; exact family_of_point point₀
  have own : action.family = t₁.tag.action.family := by rw [← tag₂]; exact family_of_point point
  have welcome₀ : earlier.family ≠ .ecdRedirect := by rw [same, ← own]; exact welcome
  have down : c₁.world.store.inProgress earlier.family = false := by
    rw [world, Device.after_put]
    show (c₀.world.store.reducer earlier).inProgress earlier.family = false
    simp [inProgress_reducer, phase_of_point point₀ welcome₀]
  have goesOn : t₁.rest.finished = false := by
    by_contra ended
    have head : t₁.rest.head? = none := by
      rw [← Option.not_isSome_iff_eq_none, Prog.head?_isSome]
      simpa using ended
    cases here.symm.trans (Machine.thread?_of_finished rest₁ there head)
    rw [standing] at head
    cases head
  have up := (tell (first ++ [.act i (.put earlier) b]) (middle ++ .act i (.put action) a :: after)
    c₁ (by simp) (Machine.run_concat reached₀ step₀) earlier.family welcome₀).mpr
    ⟨i, t₁, there, same.symm, t₁, there, goesOn, fun _ => ⟨action, a, by simp⟩⟩
  rw [down] at up
  cases up

/-- A sign-in that gives no user ends its run. -/
theorem ends_of_nobody {navigation : Navigation} {hist : Trace} {a : Answer} {user : Val}
    {next : Option Eff} (point : LoginPoint navigation hist next) (signIn : hist = [(.signIn, a)])
    (given : a.prop "user" = some user) (falsy : user.truthy = false) : next = none := by
  cases point with
  | start => cases signIn
  | nobody => rfl
  | done => rfl
  | failed => rfl
  | refused nothing =>
    cases signIn
    rw [nothing] at given
    cases given
  | signedIn given' truthy =>
    cases signIn
    cases given.symm.trans given'
    rw [falsy] at truthy
    cases truthy
  | stored => simp [List.append_eq_singleton_iff] at signIn
  | database stored shown next =>
    simp only [List.append_eq_singleton_iff, List.cons.injEq, Prod.mk.injEq, and_true, reduceCtorEq,
      and_false, or_false] at signIn
    rcases signIn with ⟨rfl, rfl, -⟩
    simp at stored
  | writing write =>
    rcases write with ⟨_, email, _, before, snapshot, -, -, -, -, hist, -⟩
    simp [hist, List.append_eq_singleton_iff] at signIn

/-- A step is orderly where the flags tell which sagas are busy before and after it. -/
theorem orderly_of_tell {i : Nat} {e : Eff} {a : Answer}
    (before : (device base64 allows).run (.initial d) ls = some c)
    (taken : (device base64 allows).step c (.act i e a) = some c')
    (once : ∀ t action, e = .put action → action.family ≠ .ecdRedirect → c.thread? i = some t →
      Trace.dispatched t.hist = [])
    (tell : FlagsTellBusy c) (tell' : FlagsTellBusy c') : Orderly c (.act i e a) := by
  obtain ⟨t, t', here, standing, point, -, world, there, tag, hist, point', rest⟩ :=
    device_act before taken
  -- where a flag is down after the step, no other run of the family is pending
  have idle {X : Family} (welcome : X ≠ .ecdRedirect)
      (down : c'.world.store.inProgress X = false) : NoOther c i X := by
    by_contra other
    rw [← noOther_congr rest] at other
    have up := (tell' X welcome).mpr ((busy_iff there).mpr (Or.inr other))
    rw [down] at up
    cases up
  cases e with
  | put action =>
    intro welcome
    rw [Device.after_put] at world
    refine ⟨fun u here' => once u action rfl welcome here', idle welcome ?_, ?_⟩
    · rw [world]
      show (c.world.store.reducer action).inProgress action.family = false
      simp [inProgress_reducer, phase_of_point point welcome]
    · intro same
      subst same
      apply idle (by decide)
      rw [world]
      show (c.world.store.reducer .logoutSuccess).inProgress .isLogged = false
      simp [inProgress_reducer, Action.family]
  | signIn =>
    intro user given falsy alone
    obtain ⟨start, navigation, login⟩ := login_of_signIn point
    have own : t.tag.action.family = .login := by rw [login]; rfl
    have pending : Pending t = true := by simp [Pending, standing, start]
    have up := (tell .login (by decide)).mpr ((busy_iff here).mpr (Or.inl ⟨own, pending⟩))
    rw [tag, login] at point'
    have ended := ends_of_nobody point' (by rw [hist, start]; rfl) given falsy
    have still : c'.world.store = c.world.store := by rw [world, Device.after_store rfl]
    rw [← still] at up
    rcases (busy_iff there).mp ((tell' .login (by decide)).mp up) with ⟨-, pending'⟩ | other
    · simp [Pending, ended] at pending'
    · exact other ((noOther_congr rest).mpr alone)
  | _ => trivial

/-- **The flags tell which sagas have a run in flight, in every state of a run of
the system, exactly when** every step of it is orderly. -/
theorem flagsTellRuns_iff (base64 : String → String) (allows : Device → Eff → Answer → Bool)
    (session : Option Val) (ls : List (Label Request Eff Answer))
    (possible :
      ((device base64 allows).run (.initial (.initial session)) ls).isSome = true) :
    FlagsTellRuns (device base64 allows) (.initial session) ls ↔
      (device base64 allows).AllSteps Orderly (.initial (.initial session)) ls := by
  constructor
  · intro tell
    have once := dispatchesOnce_of_tell tell possible
    have tells : ∀ past future c, ls = past ++ future →
        (device base64 allows).run (.initial (.initial session)) past = some c →
        FlagsTellBusy c := by
      intro past future c split taken X welcome
      subst split
      exact (tell past future c rfl taken X welcome).trans (tells_iff once possible taken welcome)
    apply Machine.allSteps_iff.mpr
    intro before l after c c' split reached step
    cases l with
    | start r => trivial
    | act i e a =>
      refine orderly_of_tell reached step ?_ (tells before _ c split reached)
        (tells (before ++ [.act i e a]) after c' (by simp [split])
          (Machine.run_concat reached step))
      intro t action put welcome here
      subst put
      exact once before i action a after c t split reached here welcome
  · intro orderly past future c split taken X welcome
    subst split
    have once := dispatchesOnce_of_orderly orderly possible
    have earlier := ((Machine.allSteps_append taken).mp orderly).1
    exact (flagsTellBusy_run taken earlier X welcome).trans
      (tells_iff once possible taken welcome).symm

end

/-- The login button is tapped twice, and the first sign-in is cancelled. -/
def firstCancelled : List (Label Request Eff Answer) :=
  [.start (.login ⟨.welcome⟩), .start (.login ⟨.welcome⟩),
    .act 0 .signIn .throws,
    .act 0 (.put .loginFail) (.returns .undefined)]

/-- Then the second one is cancelled too. -/
def secondCancelled : List (Label Request Eff Answer) :=
  [.act 1 .signIn .throws,
    .act 1 (.put .loginFail) (.returns .undefined)]

theorem flagsTellRuns_doubleTap :
    FlagsTellRuns (device base64Client fun _ _ _ => true) (.initial none)
        (firstCancelled ++ secondCancelled) ↔
      (device base64Client fun _ _ _ => true).AllSteps Orderly (.initial (.initial none))
        (firstCancelled ++ secondCancelled) :=
  flagsTellRuns_iff base64Client (fun _ _ _ => true) none (firstCancelled ++ secondCancelled)
    (by decide +kernel)

/-- After the first cancellation the flag is down although the second sign-in is
still going on. -/
theorem not_flagsTellRuns_doubleTap :
    ¬ FlagsTellRuns (device base64Client fun _ _ _ => true) (.initial none)
      (firstCancelled ++ secondCancelled) := by
  intro tell
  have found : ((device base64Client fun _ _ _ => true).run (.initial (.initial none))
      firstCancelled).map (fun c => (c.world.store.inProgress .login,
        (c.thread? 1).map fun t => (t.tag, t.rest.finished))) =
      some (false, some (.login ⟨.welcome⟩, false)) := by decide +kernel
  obtain ⟨c, taken, found⟩ := Option.map_eq_some_iff.mp found
  simp only [Prod.mk.injEq, Option.map_eq_some_iff] at found
  rcases found with ⟨down, t, here, login, goesOn⟩
  have up := (tell firstCancelled secondCancelled c rfl taken .login (by decide)).mpr
    ⟨1, t, here, by rw [login]; rfl, t, here, goesOn, fun _ =>
      ⟨.loginFail, .returns .undefined, by simp [secondCancelled]⟩⟩
  rw [down] at up
  cases up

end GAMember
