import GAMember.Cloud.Database

/-!
# One user, many runs

`login$` reads the record of its user in one step and writes in a later one. On
one user's account the write finds a record exactly when some other write has
come between the two.
-/

namespace GAMember

/-- A step that concerns one user only: he is the one who signs in, and the one
whose portal is opened. -/
def OfUser (email : String) : Label Request Eff Answer → Prop
  | .start (.ecdRedirect user) => user.IsUser email
  | .act _ .signIn a => ∀ user, a.prop "user" = some user → user.IsUser email
  | _ => True

/-- A write of a `login$` run finds no record. -/
def RecordKept (key : String) (c : Conf Val Request Eff Answer)
    (l : Label Request Eff Answer) : Prop :=
  ∀ i path v w t navigation, l = .act i (.set path v) (.returns w) → c.thread? i = some t →
    t.tag = .login navigation → (record c.world key).truthy = false

/-- Nothing is written between the read of a run and its write to `/users`. -/
def Undisturbed (ls : List (Label Request Eff Answer)) : Prop :=
  ∀ before between after i path snapshot v w,
    ls = before ++ .act i (.value path) (.returns snapshot) :: between ++
      .act i (.set "/users" v) (.returns w) :: after →
    ∀ l ∈ between, Wrote l = false

section

variable {base64 : String → String} {db : Val} {ls : List (Label Request Eff Answer)}
  {c c' : Conf Val Request Eff Answer} {l : Label Request Eff Answer}

/-- After a read, the database still holds what was read or something has been
written since. -/
theorem read_still_valid (taken : (cloud base64).run (.initial db) ls = some c) {i : Nat}
    {t : Thread Request Eff Answer} (here : c.thread? i = some t) {hist : Trace} {path : String}
    {snapshot : Val} (last : t.hist = hist ++ [(.value path, .returns snapshot)]) :
    ∃ before since, ls = before ++ .act i (.value path) (.returns snapshot) :: since ∧
      ((∃ l ∈ since, Wrote l = true) ∨ c.world.atPath (segments path) = snapshot) := by
  refine Machine.run_induction (m := cloud base64) (c := .initial db)
    (motive := fun ls d => ∀ t hist, d.thread? i = some t →
      t.hist = hist ++ [(.value path, .returns snapshot)] →
      ∃ before since, ls = before ++ .act i (.value path) (.returns snapshot) :: since ∧
        ((∃ l ∈ since, Wrote l = true) ∨ d.world.atPath (segments path) = snapshot))
    ?_ ?_ taken t hist here last
  · intro t hist none
    simp [Conf.thread?] at none
  · intro ls d l d' _ ih step t hist here last
    rcases Machine.thread?_step step here with
      old | ⟨r, rfl, -, rfl⟩ | ⟨e, a, t₀, resume, rfl, -, -, admitted, rfl⟩
    · obtain ⟨before, since, rfl, valid⟩ := ih t hist old last
      refine ⟨before, since ++ [l], by simp, ?_⟩
      rcases valid with ⟨l', member, wrote⟩ | same
      · exact Or.inl ⟨l', List.mem_append_left _ member, wrote⟩
      · cases wrote : Wrote l with
        | true => exact Or.inl ⟨l, by simp, wrote⟩
        | false => exact Or.inr (by rw [cloud_world step wrote, same])
    · simp at last
    · obtain ⟨-, rfl, rfl⟩ : t₀.hist = hist ∧ e = .value path ∧ a = .returns snapshot := by
        simpa [Thread.resumed] using List.append_inj' last rfl
      refine ⟨ls, [], by simp, Or.inr ?_⟩
      rw [cloud_world step rfl]
      simpa [cloud, eq_comm] using admitted

variable {email : String}

/-- The user of a `login$` run of one user's account is that user. -/
theorem login_isUser (taken : (cloud base64).run (.initial db) ls = some c)
    (own : ∀ l ∈ ls, OfUser email l) {i : Nat} {t : Thread Request Eff Answer}
    (here : c.thread? i = some t) {user : Val} (given : loginUser t.hist = some user) :
    user.IsUser email := by
  unfold loginUser at given
  split at given
  · rename_i a rest hist
    have signIn : Label.act i .signIn a ∈ ls :=
      Machine.mem_of_mem_hist taken here (by rw [hist]; exact List.mem_cons_self)
    exact own _ signIn user given
  · cases given

/-- A write on one user's account leaves a record there. -/
theorem record_of_write (valid : validKey (replaceDots email) = true)
    (before : (cloud base64).run (.initial db) ls = some c) (own : ∀ l ∈ ls, OfUser email l)
    (taken : (cloud base64).step c l = some c') (wrote : Wrote l = true) :
    (record c'.world (replaceDots email)).truthy = true := by
  obtain ⟨i, path, v, w, rfl⟩ := wrote_iff.mp wrote
  obtain ⟨t, here, write, -, world⟩ := cloud_write before taken
  rw [world, record]
  cases tag : t.tag with
  | login navigation =>
    rw [tag] at write
    rcases write with ⟨user, s, name, -, -, rfl, rfl, given, field, -, -⟩
    cases login_isUser before own here given s field
    rw [segments_users]
    have read := Val.atPath_setAt c.world
      (loginUsers (replaceDots email) (.str email) name).stored ["users"] [replaceDots email]
    exact (congrArg Val.truthy read).trans (child_loginUsers_self email name)
  | ecdRedirect user =>
    rw [tag] at write
    rcases write with ⟨s, name, access, refresh, field, rfl, rfl, -⟩
    have started := Machine.start_mem before here
    rw [tag] at started
    cases own _ started s field
    rw [segments_record valid, Val.atPath_setAt_self]
    simp [Val.object, Fields.stored_cons, Val.ofFields]
  | isLogged navigation => rw [tag] at write; exact write.elim
  | logout navigation => rw [tag] at write; exact write.elim

/-- Once something has been written on one user's account, there is a record. -/
theorem record_of_wrote (valid : validKey (replaceDots email) = true)
    (taken : (cloud base64).run (.initial db) ls = some c) (own : ∀ l ∈ ls, OfUser email l)
    (written : ∃ l ∈ ls, Wrote l = true) :
    (record c.world (replaceDots email)).truthy = true := by
  refine Machine.run_induction (m := cloud base64) (c := .initial db)
    (motive := fun ls d => (∀ l ∈ ls, OfUser email l) → (∃ l ∈ ls, Wrote l = true) →
      (record d.world (replaceDots email)).truthy = true) ?_ ?_ taken own written
  · intro _ written
    rcases written with ⟨l, none, -⟩
    cases none
  · intro ls d l d' before ih step own written
    have earlier : ∀ l ∈ ls, OfUser email l := fun l' member =>
      own l' (List.mem_append_left _ member)
    cases wrote : Wrote l with
    | true => exact record_of_write valid before earlier step wrote
    | false =>
      rw [cloud_world step wrote]
      rcases written with ⟨l', member, wrote'⟩
      rcases List.mem_append.mp member with old | new
      · exact ih earlier ⟨l', old, wrote'⟩
      · cases List.mem_singleton.mp new
        rw [wrote] at wrote'
        cases wrote'

/-- Only `login$` writes to `/users` itself. -/
theorem login_of_write_users {r : Request} {hist : Trace} {v : Val}
    (write : r.Write hist "/users" v) : ∃ navigation, r = .login navigation := by
  cases r with
  | login navigation => exact ⟨navigation, rfl⟩
  | ecdRedirect user =>
    rcases write with ⟨s, name, access, refresh, -, path, -, -⟩
    have chars : "/users".toList = ("/users/" ++ replaceDots s).toList := congrArg _ path
    rw [String.toList_append] at chars
    simp at chars
  | isLogged navigation => exact write.elim
  | logout navigation => exact write.elim

/-- **On one user's account no login overwrites a record exactly when** nothing is
written between a run's read and its write to `/users`. -/
theorem recordKept_iff (base64 : String → String) (db : Val) (email : String)
    (ls : List (Label Request Eff Answer))
    (possible : ((cloud base64).run (.initial db) ls).isSome = true)
    (own : ∀ l ∈ ls, OfUser email l) :
    (cloud base64).AllSteps (RecordKept (replaceDots email)) (.initial db) ls ↔
      Undisturbed ls := by
  obtain ⟨c, taken⟩ := Option.isSome_iff_exists.mp possible
  rw [Machine.allSteps_iff]
  constructor
  · intro kept before between after i path snapshot v w split l member
    subst split
    by_contra wrote
    rw [Bool.not_eq_false] at wrote
    obtain ⟨d, d', reached, step, -⟩ := Machine.run_split_eq_some taken
    obtain ⟨t, here, write, storable, -⟩ := cloud_write reached step
    obtain ⟨navigation, login⟩ := login_of_write_users write
    have earlier : ∀ l ∈ before ++ .act i (.value path) (.returns snapshot) :: between,
        OfUser email l := fun l member => own l (List.mem_append_left _ member)
    have absent := kept _ _ _ d d' rfl reached step i _ v w t navigation rfl here login
    rw [login] at write
    rcases write with ⟨user, s, name, -, -, -, rfl, given, field, -, -⟩
    cases login_isUser reached earlier here given s field
    have valid := validKey_of_storable_loginUsers storable
    have present := record_of_wrote valid reached earlier ⟨l, by simp [member], wrote⟩
    rw [present] at absent
    cases absent
  · intro undisturbed before l after d d' split reached step i path v w t navigation act here login
    subst split
    subst act
    obtain ⟨t', here', write, storable, -⟩ := cloud_write reached step
    cases here.symm.trans here'
    rw [login] at write
    rcases write with ⟨user, s, name, hist, snapshot, rfl, rfl, given, field, last, absent⟩
    have valid := validKey_of_storable_loginUsers storable
    have earlier : ∀ l ∈ before, OfUser email l := fun l member =>
      own l (List.mem_append_left _ member)
    cases login_isUser reached earlier here given s field
    obtain ⟨first, since, rfl, still⟩ := read_still_valid reached here last
    rcases still with ⟨l, member, wrote⟩ | same
    · have silent := undisturbed first since after i _ snapshot _ w rfl l member
      rw [wrote] at silent
      cases silent
    · rw [segments_record valid] at same
      rw [record, same]
      exact absent

end

/-! ## A lost pair -/

/-- Run `i` logs the user in and finds no record. -/
def findsNone (i : Nat) : List (Label Request Eff Answer) :=
  [.start (.login ⟨.welcome⟩),
    .act i .signIn (.returns (.object [("user", annUser)])),
    .act i (.put (.loginSuccess annUser)) (.returns .undefined),
    .act i (.navigate ⟨.welcome⟩ .dashboard) (.returns .undefined),
    .act i (.ref "/users/ann@x,org") (.returns .undefined),
    .act i (.value "/users/ann@x,org") (.returns .null)]

/-- Run `i` registers the user. -/
def registers (i : Nat) : Label Request Eff Answer :=
  .act i (.set "/users" (loginUsers "ann@x,org" (.str "ann@x.org") (.str "Ann")))
    (.returns .undefined)

/-- Run `i` finds the new record, is issued a pair and stores it. -/
def refreshes (i : Nat) : List (Label Request Eff Answer) :=
  [.start (.ecdRedirect annUser),
    .act i (.ref "/users/ann@x,org") (.returns .undefined),
    .act i (.value "/users/ann@x,org") (.returns annUser),
    .act i (.post (checkTokenUrl .undefined) .null (checkTokenOpts base64Client)) .throws,
    .act i (.post "oauth/token" (.str "grant_type=refresh_token&refresh_token=undefined") tokenOpts)
      (.returns (.object [("data", .object [("access_token", .str "a1"),
        ("refresh_token", .str "r1")])])),
    .act i (.openURL (ecdLink (.str "a1"))) (.returns .undefined),
    .act i (.set "/users/ann@x,org" (.object [("email", .str "ann@x.org"), ("name", .str "Ann"),
      ("accessToken", .str "a1"), ("refreshToken", .str "r1")])) (.returns .undefined)]

/-- Two logins of a new user find no record; one registers her, her tokens are
stored, and then the other one registers her again. -/
def raceRun : List (Label Request Eff Answer) :=
  findsNone 0 ++ findsNone 1 ++ registers 1 :: refreshes 2 ++ [registers 0]

theorem raceRun_iff :
    (cloud base64Client).AllSteps (RecordKept (replaceDots "ann@x.org")) (.initial .null) raceRun ↔
      Undisturbed raceRun :=
  recordKept_iff base64Client .null "ann@x.org" raceRun (by decide +kernel)
    (by simp [raceRun, findsNone, registers, refreshes, OfUser, Val.IsUser, annUser, Val.object])

/-- The second registration overwrites the record with the tokens. -/
theorem not_recordKept_raceRun :
    ¬ (cloud base64Client).AllSteps (RecordKept "ann@x,org") (.initial .null) raceRun := by
  intro all
  obtain ⟨d, -, before, -, kept⟩ := Machine.allSteps_at all (by decide +kernel)
  have found : ((cloud base64Client).run (.initial .null)
      (findsNone 0 ++ findsNone 1 ++ registers 1 :: refreshes 2)).map
      (fun d => ((record d.world "ann@x,org").truthy, (d.thread? 0).map (·.tag))) =
        some (true, some (.login ⟨.welcome⟩)) := by decide +kernel
  simp only [before, Option.map_some, Option.some.injEq, Prod.mk.injEq, Option.map_eq_some_iff]
    at found
  rcases found with ⟨present, t, here, login⟩
  have absent := kept 0 _ _ _ t _ rfl here login
  rw [present] at absent
  cases absent

end GAMember
