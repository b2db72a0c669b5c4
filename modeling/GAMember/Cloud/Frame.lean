import GAMember.Cloud.Database

/-!
# Other people's records

A `login$` run is expected to touch the record of its own user only. It writes
`/users` as a whole, so the records of all other users survive a step of the run
exactly when there are none to lose. `ecdRedirect$` writes the same kind of record
at its own path and loses nobody's.
-/

namespace GAMember

section

variable (base64 : String → String)

/-- A step of a `login$` run leaves every record alone but that of its own user. -/
def FrameKept (c : Conf Val Request Eff Answer) (l : Label Request Eff Answer) : Prop :=
  ∀ i e a t navigation, l = .act i e a → c.thread? i = some t → t.tag = .login navigation →
    ∀ k, loginKey t.hist ≠ some k →
      record ((cloud base64).after c.world e a) k = record c.world k

/-- Where a `login$` run writes, no other user has a record. -/
def WritesAlone (c : Conf Val Request Eff Answer) (l : Label Request Eff Answer) : Prop :=
  ∀ i path v w t navigation, l = .act i (.set path v) (.returns w) → c.thread? i = some t →
    t.tag = .login navigation → ∀ k, loginKey t.hist ≠ some k → record c.world k = .null

variable {base64}

/-- After a write of `login$` no other user has a record. -/
theorem record_of_loginWrite {hist : Trace} {path : String} {v db : Val}
    (write : LoginWrite hist path v) {k : String} (other : loginKey hist ≠ some k) :
    record (db.setAt v.stored (segments path)) k = .null := by
  rcases write with ⟨user, email, name, -, -, rfl, rfl, given, field, -, -⟩
  have ne : replaceDots email ≠ k := by
    intro same
    subst same
    exact other (by simp [loginKey, given, field])
  rw [record, segments_users]
  exact (Val.atPath_setAt db _ ["users"] [k]).trans (child_loginUsers ne (.str email) name)

/-- One step: the frame is kept exactly when the write finds nobody else. -/
theorem frameKept_step {db : Val} {ls : List (Label Request Eff Answer)}
    {c c' : Conf Val Request Eff Answer} {l : Label Request Eff Answer}
    (before : (cloud base64).run (.initial db) ls = some c)
    (taken : (cloud base64).step c l = some c') : FrameKept base64 c l ↔ WritesAlone c l := by
  constructor
  · intro kept i path v w t navigation act here login k other
    subst act
    obtain ⟨t', here', write, -, -⟩ := cloud_write before taken
    cases here.symm.trans here'
    rw [login] at write
    rw [← kept i _ _ t navigation rfl here login k other]
    exact record_of_loginWrite write other
  · intro alone i e a t navigation act here login k other
    subst act
    obtain ⟨t', resume, -, -, -, rfl⟩ := Machine.step_act taken
    cases wrote : Wrote (.act i e a) with
    | false => exact congrArg (record · k) (cloud_world taken wrote)
    | true =>
      obtain ⟨_, path, v, w, act⟩ := wrote_iff.mp wrote
      cases act
      obtain ⟨t'', here', write, -, world⟩ := cloud_write before taken
      cases here.symm.trans here'
      rw [login] at write
      rw [alone i path v w t navigation rfl here login k other]
      exact record_of_loginWrite write other

/-- **A run of the system keeps the frame of every `login$` run exactly when** each
of their writes finds no record of another user, whatever else is running. -/
theorem frameKept_iff (base64 : String → String) (db : Val)
    (ls : List (Label Request Eff Answer)) :
    (cloud base64).AllSteps (FrameKept base64) (.initial db) ls ↔
      (cloud base64).AllSteps WritesAlone (.initial db) ls :=
  Machine.allSteps_congr fun _ _ _ _ before taken => frameKept_step before taken

end

/-- One registered user, with tokens. -/
def annDatabase : Val :=
  .object [("users", .object [("ann@x,org", .object [("email", .str "ann@x.org"),
    ("name", .str "Ann"), ("accessToken", .str "a1"), ("refreshToken", .str "r1")])])]

/-- Another user logs in for the first time: the run up to its write. -/
def bobLogin : List (Label Request Eff Answer) :=
  [.start (.login ⟨.welcome⟩),
    .act 0 .signIn (.returns (.object [("user", bobUser)])),
    .act 0 (.put (.loginSuccess bobUser)) (.returns .undefined),
    .act 0 (.navigate ⟨.welcome⟩ .dashboard) (.returns .undefined),
    .act 0 (.ref "/users/bob@x,org") (.returns .undefined),
    .act 0 (.value "/users/bob@x,org") (.returns .null)]

def bobWrite : Label Request Eff Answer :=
  .act 0 (.set "/users" (loginUsers "bob@x,org" (.str "bob@x.org") (.str "Bob")))
    (.returns .undefined)

/-- The first login of a new user erases the record of the other one. -/
theorem not_frameKept_bobLogin :
    ¬ (cloud base64Client).AllSteps (FrameKept base64Client) (.initial annDatabase)
      (bobLogin ++ [bobWrite]) := by
  intro all
  obtain ⟨d, -, before, -, kept⟩ := Machine.allSteps_at all (by decide +kernel)
  have found : ((cloud base64Client).run (.initial annDatabase) bobLogin).map
      (fun d => (d.world, (d.thread? 0).map fun t => (t.tag, loginKey t.hist))) =
        some (annDatabase, some (.login ⟨.welcome⟩, some "bob@x,org")) := by decide
  simp only [before, Option.map_some, Option.some.injEq, Prod.mk.injEq, Option.map_eq_some_iff]
    at found
  rcases found with ⟨world, t, here, login, key⟩
  have same := kept 0 _ _ t _ rfl here login "ann@x,org" (by rw [key]; decide)
  rw [world] at same
  exact absurd same (by decide)

end GAMember
