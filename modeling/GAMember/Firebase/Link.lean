import GAMember.Firebase.Delivery
import Mathlib.Algebra.Group.Nat.Defs
import Mathlib.Data.List.Induction

/-!
# The steps of a client

What a client takes its connection for and what the connection is agree: both are told
by the phase that it is in (`Stands`). Each method comes to moves of the delivery from
one phase to another (`Goes`), and so does each step (`acts_step`), after it has logged
the mistakes of the caller.

* `run_induction`: what these moves preserve holds at the end of every run.
* `connection_run`: nothing is sent on a connection that is not established, the
  listens that wait for an answer are counted, and no assertion fails but for a mistake
  of the caller.
-/

namespace GAMember

variable {α : Type}

/-- The attempts that are not answered yet, the latest being the last one made. -/
structure Fetching (fetches : List Nat) (currentFetchTokenAttempt : Nat) : Prop where
  nodup : fetches.Nodup
  le : ∀ attempt ∈ fetches, attempt ≤ currentFetchTokenAttempt

theorem Fetching.erase {fetches : List Nat} {current : Nat} (fetching : Fetching fetches current)
    (attempt : Nat) : Fetching (fetches.erase attempt) current :=
  ⟨fetching.nodup.erase attempt,
    fun other member => fetching.le other (List.mem_of_mem_erase member)⟩

theorem Fetching.concat {fetches : List Nat} {current : Nat}
    (fetching : Fetching fetches current) :
    Fetching (fetches ++ [current + 1]) (current + 1) := by
  constructor
  · rw [List.nodup_append]
    refine ⟨fetching.nodup, by simp, ?_⟩
    intro attempt member other last
    have := fetching.le attempt member
    rw [List.mem_singleton] at last
    omega
  · intro attempt member
    rw [List.mem_append, List.mem_singleton] at member
    rcases member with earlier | rfl
    · exact Nat.le_succ_of_le (fetching.le attempt earlier)
    · exact Nat.le_refl _

/-- What the fields that follow the connection are in a phase. -/
structure Standing (connectionState : ConnectionState) (realtime : Option FConnection)
    (requestCBHash : List (Nat × FCallback)) (scheduledRetry : Option Bool) (fetches : List Nat)
    (currentFetchTokenAttempt : Nat) (phase : ConnectionPhase) : Prop where
  state : connectionState = phase.connectionState
  realtime : realtime = phase.realtime
  idle : (∀ number, phase.realtime ≠ some ⟨number, true⟩) → requestCBHash = []
  retry : phase ≠ .disconnected → scheduledRetry = none
  latest : phase.realtime ≠ none → currentFetchTokenAttempt ∉ fetches
  fetching : Fetching fetches currentFetchTokenAttempt

namespace FPersistentConnection

open Delivery (Move Moves Step)

def Stands (s : FPersistentConnection α) (phase : ConnectionPhase) : Prop :=
  Standing s.connectionState s.realtime s.requestCBHash s.scheduledRetry s.fetches
    s.currentFetchTokenAttempt phase

/-- By moves from a delivery to a state in a phase. -/
structure Goes (ordered : Prop) (d : Delivery α) (s : FPersistentConnection α)
    (phase : ConnectionPhase) : Prop where
  stands : s.Stands phase
  moves : Moves ordered d (s.delivery phase)

/-! ## Mistakes of the caller -/

/-- What an assertion says if it fails. -/
def claim (condition : Bool) (text : String) : List String := if condition then [] else [text]

/-- The assertions about the caller that fail in the step. One about a query can fail late,
when the listen to it is refused. -/
def Event.mistakes (s : FPersistentConnection α) : Event α → List String
  | .listen query _ =>
      claim (!s.listens.any (·.query.isEqual query)) "listen() called twice for the same query" ++
        claim (query.isDefault || !query.loadsAllData)
          "listen called for non-default but complete query"
  | .unlisten query _ =>
      claim (query.isDefault || !query.loadsAllData)
        "removeListen called for non-default but complete query"
  | .response rn status _ =>
      match s.requestCBHash.lookup rn with
      | some (.listen listenSpec) =>
          if s.listens.contains listenSpec ∧ status ≠ "ok" then
            claim (listenSpec.query.isDefault || !listenSpec.query.loadsAllData)
              "removeListen called for non-default but complete query"
          else []
      | _ => []
  | _ => []

/-- All of them, as a run comes to them. -/
def mistakes (s : FPersistentConnection α) : List (Event α) → List String
  | [] => []
  | event :: events => event.mistakes s ++ mistakes (s.step event) events

/-- They are logged. -/
def accused (s : FPersistentConnection α) (mistakes : List String) : FPersistentConnection α :=
  { s with log := s.log ++ mistakes.map .assertionFailed }

theorem nsAssert_eq (s : FPersistentConnection α) (condition : Bool) (text : String) :
    s.nsAssert condition text = s.accused (claim condition text) := by
  unfold nsAssert claim accused
  split
  · simp
  · rfl

theorem accused_append (s : FPersistentConnection α) (earlier later : List String) :
    (s.accused earlier).accused later = s.accused (earlier ++ later) := by
  simp [accused]

theorem nsAssert_of {s : FPersistentConnection α} {condition : Bool} (holds : condition = true)
    (text : String) : s.nsAssert condition text = s :=
  if_pos holds

/-! ## From phase to phase -/

variable {ordered : Prop} {s s' : FPersistentConnection α} {phase phase' : ConnectionPhase}
  {d : Delivery α} {number : Nat}

theorem Stands.enter (stands : s.Stands phase)
    (state : phase.connectionState = phase'.connectionState)
    (realtime : phase.realtime = phase'.realtime) (away : phase ≠ .disconnected) :
    s.Stands phase' :=
  ⟨stands.state.trans state, Eq.trans stands.realtime realtime,
    fun down => stands.idle (by rwa [realtime]), fun _ => stands.retry away,
    fun up => stands.latest (by rwa [realtime]), stands.fetching⟩

/-- On an established connection anything may be waited for. -/
theorem Stands.await (stands : s.Stands phase) (up : phase.realtime = some ⟨number, true⟩)
    (requestCBHash : List (Nat × FCallback)) : Stands { s with requestCBHash } phase :=
  ⟨stands.state, stands.realtime, fun down => absurd up (down number), stands.retry, stands.latest,
    stands.fetching⟩

theorem Stands.of_realtime (stands : s.Stands phase) {realtime : FConnection}
    (up : s.realtime = some realtime) : phase.realtime = some realtime :=
  stands.realtime.symm.trans up

theorem Goes.refl (stands : s.Stands phase) : Goes ordered (s.delivery phase) s phase :=
  ⟨stands, .refl⟩

theorem Goes.trans (first : Goes ordered d s phase)
    (second : Goes ordered (s.delivery phase) s' phase') : Goes ordered d s' phase' :=
  ⟨second.stands, first.moves.trans second.moves⟩

theorem Goes.move (stands : s.Stands phase) (move : Move ordered d (s.delivery phase)) :
    Goes ordered d s phase :=
  ⟨stands, .single move⟩

/-! ## Sending -/

theorem sendAction_eq (up : s.realtime = some ⟨number, true⟩) (request : FRequest α)
    (onMessage : Option FCallback) :
    s.sendAction request onMessage = { s with
      requestNumber := s.requestNumber + 1
      requestCBHash := s.requestCBHash ++
        onMessage.toList.map fun callback => (s.requestNumber, callback)
      log := s.log ++ [.sent number s.requestNumber request] } := by
  cases onMessage with
  | none => simp [sendAction, sendRequest, up, emit]
  | some callback => simp [sendAction, sendRequest, up, emit]

theorem sendAuth_eq (connected : s.connected = true) (token : s.authToken.isSome)
    (restoreStateAfterComplete : Bool) :
    s.sendAuthAndRestoreStateAfterComplete restoreStateAfterComplete =
      s.sendAction (.auth (s.authToken.getD "")) (some (.auth restoreStateAfterComplete)) := by
  unfold sendAuthAndRestoreStateAfterComplete
  rw [nsAssert_of connected]
  dsimp only
  rw [nsAssert_of token]

theorem sendPut_eq {index : Nat} {put : FOutstandingPut α}
    (state : s.connectionState = .connected) (up : s.realtime = some ⟨number, true⟩)
    (held : s.outstandingPuts.lookup index = some put) :
    s.sendPut index = { s with
      outstandingPuts := markSent s.outstandingPuts index
      requestNumber := s.requestNumber + 1
      requestCBHash := s.requestCBHash ++ [(s.requestNumber, .put index)]
      log := s.log ++ [.sent number s.requestNumber
        (.put index put.action put.pathString put.data put.hash)] } := by
  have writes : s.canSendWrites = true := decide_eq_true state
  have marked : ({ s with outstandingPuts := markSent s.outstandingPuts index } :
    FPersistentConnection α).realtime = some ⟨number, true⟩ := up
  unfold sendPut
  rw [nsAssert_of writes]
  dsimp only
  rw [held]
  dsimp only
  rw [sendAction_eq marked]
  rfl

theorem goes_sendAction (stands : s.Stands phase) (up : phase.realtime = some ⟨number, true⟩)
    {request : FRequest α} (noPut : request.isPut = false) {onMessage : Option FCallback}
    (fits : ∀ callback ∈ onMessage, callback.Fits phase) :
    Goes ordered (s.delivery phase) (s.sendAction request onMessage) phase := by
  rw [sendAction_eq (stands.realtime.trans up)]
  exact .move (stands.await up _) (.request up noPut fits)

theorem goes_sendListen (stands : s.Stands phase) (up : phase.realtime = some ⟨number, true⟩)
    (listenSpec : FOutstandingQuery) :
    Goes ordered (s.delivery phase) (s.sendListen listenSpec) phase := by
  unfold sendListen
  rw [sendAction_eq (stands.realtime.trans up)]
  exact .move (stands.await up _) (.listen up)

theorem goes_sendOnDisconnectAction (stands : s.Stands phase)
    (up : phase.realtime = some ⟨number, true⟩) (tuple : FTupleOnDisconnect α) :
    Goes ordered (s.delivery phase) (s.sendOnDisconnectAction tuple) phase :=
  goes_sendAction stands up rfl (by simp [FCallback.Fits])

/-- A put is sent as the delivery sends it. -/
theorem delivery_sendPut {index : Nat} (state : s.connectionState = .connected)
    (up : s.realtime = some ⟨number, true⟩) (held : (s.outstandingPuts.lookup index).isSome) :
    (s.sendPut index).delivery phase = (s.delivery phase).sendPut number index := by
  obtain ⟨put, found⟩ := Option.isSome_iff_exists.mp held
  have found' : (s.delivery phase).outstandingPuts.lookup index = some put := found
  rw [sendPut_eq state up found, Delivery.sendPut, found']
  rfl

/-- Sending a put leaves the phase. -/
theorem Stands.sendPut {index : Nat} (stands : s.Stands phase)
    (state : phase.connectionState = .connected) (up : phase.realtime = some ⟨number, true⟩)
    (held : (s.outstandingPuts.lookup index).isSome) : (s.sendPut index).Stands phase := by
  obtain ⟨put, found⟩ := Option.isSome_iff_exists.mp held
  rw [sendPut_eq (stands.state.trans state) (stands.realtime.trans up) found]
  exact stands.await up _

/-! ## Restoring -/

theorem goes_resend {index : Nat} {puts : List Nat}
    (stands : s.Stands (.restoring number (index :: puts))) :
    Goes ordered (s.delivery (.restoring number (index :: puts)))
      (if (s.outstandingPuts.lookup index).isSome then s.sendPut index else s)
      (.restoring number puts) := by
  have move : Move ordered _ _ :=
    .resend (rfl : (s.delivery (.restoring number (index :: puts))).phase = _)
  split
  next held =>
    have sent : (s.sendPut index).Stands (.restoring number (index :: puts)) :=
      stands.sendPut rfl rfl held
    refine .move (sent.enter rfl rfl (by simp)) ?_
    rw [← delivery_sendPut stands.state stands.realtime held] at move
    exact move
  next missing =>
    have none : (s.delivery (.restoring number (index :: puts))).outstandingPuts.lookup index =
        none :=
      Option.not_isSome_iff_eq_none.mp missing
    refine .move (stands.enter rfl rfl (by simp)) ?_
    rw [Delivery.sendPut, none] at move
    exact move

theorem goes_sendPuts {puts : List Nat} (stands : s.Stands (.restoring number puts)) :
    Goes ordered (s.delivery (.restoring number puts))
      (puts.foldl (fun self index =>
        if (self.outstandingPuts.lookup index).isSome then self.sendPut index else self) s)
      (.restoring number []) := by
  induction puts generalizing s with
  | nil => exact .refl stands
  | cons index puts ih =>
    have first := @goes_resend _ ordered _ _ _ _ stands
    exact first.trans (ih first.stands)

theorem goes_restoreState (stands : s.Stands (.restoring number (sortedKeys s.outstandingPuts))) :
    Goes ordered (s.delivery (.restoring number (sortedKeys s.outstandingPuts))) s.restoreState
      (.connected number) := by
  have state : s.connectionState = .connected := stands.state
  have listened := List.foldlRecOn
    (motive := fun self =>
      Goes ordered (s.delivery (.restoring number (sortedKeys s.outstandingPuts))) self
          (.restoring number (sortedKeys s.outstandingPuts)) ∧
        self.outstandingPuts = s.outstandingPuts)
    s.listens sendListen ⟨.refl stands, rfl⟩ (by
      rintro self ⟨goes, puts⟩ listenSpec -
      refine ⟨goes.trans (goes_sendListen goes.stands rfl listenSpec), ?_⟩
      unfold sendListen
      rw [sendAction_eq goes.stands.realtime]
      exact puts)
  obtain ⟨goes, puts⟩ := listened
  have restored := goes.trans (goes_sendPuts goes.stands)
  have queued := fun tuples => List.foldlRecOn
    (motive := fun self => Goes ordered _ self (.restoring number []))
    tuples sendOnDisconnectAction restored (fun _ goes tuple _ =>
      goes.trans (goes_sendOnDisconnectAction goes.stands rfl tuple))
  unfold restoreState
  rw [nsAssert_of (decide_eq_true state)]
  dsimp only
  rw [puts]
  have finished := fun tuples => show Goes ordered _ _ (.connected number) from
    (queued tuples).trans (.move ((queued tuples).stands.enter rfl rfl (by simp)) (.finish rfl))
  exact ⟨(finished _).stands, (finished _).moves⟩

theorem goes_restoreAuth (stands : s.Stands (.ready number)) :
    ∃ phase, phase.isSettled = true ∧
      Goes ordered (s.delivery (.ready number)) s.restoreAuth phase := by
  have state : s.connectionState = .connecting := stands.state
  have retry := stands.retry (by simp)
  have latest := stands.latest (by simp [ConnectionPhase.realtime])
  unfold restoreAuth
  rw [nsAssert_of (decide_eq_true state)]
  dsimp only
  split
  · have trusted : Stands { s with connectionState := .connected }
        (.restoring number (sortedKeys s.outstandingPuts)) :=
      ⟨rfl, stands.realtime, fun down => absurd rfl (down number), fun _ => retry,
        fun _ => latest, stands.fetching⟩
    exact ⟨.connected number, rfl, (Goes.move trusted (.trust rfl)).trans
      (goes_restoreState trusted)⟩
  next token =>
    have held : s.authToken.isSome = true := by simpa [Option.isSome_iff_ne_none] using token
    have connected : FPersistentConnection.connected
        { s with connectionState := .authenticating } = true := rfl
    have up : ({ s with connectionState := .authenticating } : FPersistentConnection α).realtime =
      some ⟨number, true⟩ := stands.realtime
    rw [sendAuth_eq connected held, sendAction_eq up]
    refine ⟨.authenticating number, rfl, .move ?_ (.authenticate rfl)⟩
    exact ⟨rfl, stands.realtime, fun down => absurd rfl (down number), fun _ => retry,
      fun _ => latest, stands.fetching⟩

theorem goes_onReady (stands : s.Stands (.ready number)) :
    ∃ phase, phase.isSettled = true ∧
      Goes ordered (s.delivery (.ready number)) s.onReady phase := by
  have greeted : Goes ordered (s.delivery (.ready number)) (s.sendAction .stats (some .stats))
      (.ready number) := goes_sendAction stands rfl rfl (by simp [FCallback.Fits])
  unfold onReady
  dsimp only
  split
  · obtain ⟨phase, settled, goes⟩ := @goes_restoreAuth _ ordered _ _ greeted.stands
    exact ⟨phase, settled, (greeted.trans goes).stands, (greeted.trans goes).moves⟩
  · obtain ⟨phase, settled, goes⟩ := @goes_restoreAuth _ ordered _ _ stands
    exact ⟨phase, settled, goes.stands, goes.moves⟩

/-! ## What a step comes to -/

/-- By a step from a delivery to a state in a settled phase. -/
def Acts (ordered : Prop) (d : Delivery α) (mistakes : List String) (isPut : Bool)
    (s : FPersistentConnection α) : Prop :=
  ∃ phase, phase.isSettled = true ∧ s.Stands phase ∧
    Step ordered d mistakes isPut (s.delivery phase)

theorem Goes.acts_accused {mistakes : List String} (goes : Goes ordered (d.accuse mistakes) s phase)
    (settled : phase.isSettled = true) : Acts ordered d mistakes false s :=
  ⟨phase, settled, goes.stands, .moves goes.moves⟩

theorem Goes.acts (goes : Goes ordered d s phase) (settled : phase.isSettled = true) :
    Acts ordered d [] false s := by
  have none : d.accuse [] = d := by simp [Delivery.accuse, Delivery.report]
  rw [← none] at goes
  exact goes.acts_accused settled

/-- Nothing that matters to the delivery is done. -/
theorem Stands.acts (stands : s.Stands phase) (settled : phase.isSettled = true) :
    Acts ordered (s.delivery phase) [] false s :=
  (Goes.refl stands).acts settled

/-! ## The end of a connection -/

theorem tryScheduleReconnect_eq (state : s.connectionState = .disconnected) :
    s.tryScheduleReconnect = { s with
      scheduledRetry := if s.shouldReconnect then some s.forceAuthTokenRefresh
        else s.scheduledRetry
      forceAuthTokenRefresh := if s.shouldReconnect then false else s.forceAuthTokenRefresh } := by
  unfold tryScheduleReconnect
  split
  next reconnect =>
    rw [nsAssert_of (decide_eq_true state)]
  next => rfl

theorem stands_disconnected (state : s.connectionState = .disconnected)
    (realtime : s.realtime = none) (idle : s.requestCBHash = [])
    (fetching : Fetching s.fetches s.currentFetchTokenAttempt) : s.Stands .disconnected :=
  ⟨state, realtime, fun _ => idle, fun other => absurd rfl other, fun up => absurd rfl up, fetching⟩

theorem Stands.idle_of_none (stands : s.Stands phase) (none : phase.realtime = none) :
    s.requestCBHash = [] :=
  stands.idle fun number up => by simp [none] at up

theorem goes_tryScheduleReconnect (stands : s.Stands .disconnected) :
    Goes ordered (s.delivery .disconnected) s.tryScheduleReconnect .disconnected := by
  rw [tryScheduleReconnect_eq stands.state]
  exact ⟨stands_disconnected stands.state stands.realtime (stands.idle_of_none rfl)
    stands.fetching, .refl⟩

theorem close_spec (up : s.realtime ≠ none)
    (fetching : Fetching s.fetches s.currentFetchTokenAttempt) (phase : ConnectionPhase) :
    s.close.Stands .disconnected ∧ s.close.delivery .disconnected = (s.delivery phase).close := by
  obtain ⟨realtime, some⟩ := Option.ne_none_iff_exists'.mp up
  unfold close
  rw [some]
  dsimp only
  unfold onDisconnect
  dsimp only
  split
  · rw [tryScheduleReconnect_eq rfl]
    exact ⟨stands_disconnected rfl rfl rfl fetching, rfl⟩
  · exact ⟨stands_disconnected rfl rfl rfl fetching, rfl⟩

/-- The connection ends in a step that does nothing else to the delivery. -/
theorem acts_of_close (up : phase.realtime ≠ none) (down : s'.Stands .disconnected)
    (closed : s'.delivery .disconnected = (s.delivery phase).close) :
    Acts ordered (s.delivery phase) [] false s' := by
  refine ⟨.disconnected, rfl, down, ?_⟩
  rw [closed]
  exact .close up

theorem acts_close (stands : s.Stands phase) (settled : phase.isSettled = true) :
    Acts ordered (s.delivery phase) [] false s.close := by
  by_cases up : s.realtime = none
  · unfold close
    rw [up]
    exact stands.acts settled
  · obtain ⟨down, closed⟩ := close_spec up stands.fetching phase
    exact acts_of_close (fun none => up (stands.realtime.trans none)) down closed

theorem acts_interruptForReason (stands : s.Stands phase) (reason : String) :
    Acts ordered (s.delivery phase) [] false (s.interruptForReason reason) := by
  unfold interruptForReason
  dsimp only
  split
  next there =>
    have up : s.realtime ≠ none := Option.isSome_iff_ne_none.mp there
    have closed (reasons : List String) :=
      close_spec (s := { s with interruptReasons := reasons }) up stands.fetching phase
    refine acts_of_close (fun none => up (stands.realtime.trans none)) ?_ (closed _).2
    exact stands_disconnected (closed _).1.state rfl ((closed _).1.idle_of_none rfl)
      (closed _).1.fetching
  next absent =>
    have none : s.realtime = none := Option.not_isSome_iff_eq_none.mp absent
    have down : phase.realtime = .none := stands.realtime.symm.trans none
    have halted (reasons : List String) :
        Goes ordered (s.delivery phase)
          { s with
            interruptReasons := reasons
            scheduledRetry := .none
            connectionState := .disconnected } .disconnected :=
      .move (stands_disconnected rfl none (stands.idle_of_none down) stands.fetching)
        (.wait down rfl)
    exact (halted _).acts rfl

/-! ## The way to a connection -/

theorem Stands.eq_disconnected (stands : s.Stands phase)
    (state : s.connectionState = .disconnected) : phase = .disconnected := by
  have state' : .disconnected = phase.connectionState := state.symm.trans stands.state
  cases phase with
  | disconnected => rfl
  | _ => contradiction

theorem acts_resumeForReason (stands : s.Stands phase) (settled : phase.isSettled = true)
    (reason : String) : Acts ordered (s.delivery phase) [] false (s.resumeForReason reason) := by
  unfold resumeForReason
  dsimp only
  split
  next ready =>
    obtain rfl := stands.eq_disconnected ready.2
    have resumed (reasons : List String) :
        Goes ordered (s.delivery .disconnected)
          { s with interruptReasons := reasons }.tryScheduleReconnect .disconnected :=
      goes_tryScheduleReconnect (s := { s with interruptReasons := reasons }) stands
    exact (resumed _).acts rfl
  next => exact Stands.acts (s := { s with interruptReasons := _ }) stands settled

theorem acts_reconnect (stands : s.Stands phase) (settled : phase.isSettled = true) :
    Acts ordered (s.delivery phase) [] false s.reconnect := by
  unfold reconnect
  split
  next state =>
    obtain rfl := stands.eq_disconnected state
    exact (goes_tryScheduleReconnect stands).acts rfl
  next => exact stands.acts settled

theorem acts_fetchToken (stands : s.Stands phase) (settled : phase.isSettled = true) :
    Acts ordered (s.delivery phase) [] false s.fetchToken := by
  unfold fetchToken
  split
  · exact stands.acts settled
  next forceRefresh scheduled =>
    have away : phase = .disconnected := by
      by_contra other
      rw [stands.retry other] at scheduled
      contradiction
    subst away
    have state : s.connectionState = .disconnected := stands.state
    dsimp only
    rw [nsAssert_of (decide_eq_true state)]
    have asked : ∀ output ∈ [(.fetchToken forceRefresh : FOutput α)], output.Plain := by
      intro output member
      rw [List.mem_singleton.mp member]
      exact ⟨rfl, rfl, rfl⟩
    have moves : Moves ordered (s.delivery .disconnected)
        (((s.delivery .disconnected).enter .gettingToken).report [.fetchToken forceRefresh]) :=
      .tail (.single (.wait rfl rfl)) (.report asked)
    refine (show Goes ordered _ _ .gettingToken from ⟨?_, moves⟩).acts rfl
    exact ⟨rfl, stands.realtime, fun _ => stands.idle_of_none rfl, fun _ => rfl,
      fun up => absurd rfl up, stands.fetching.concat⟩

/-- An attempt is answered. -/
theorem Stands.answered (stands : s.Stands phase) (attempt : Nat) :
    Stands { s with fetches := s.fetches.erase attempt } phase :=
  ⟨stands.state, stands.realtime, stands.idle, stands.retry,
    fun up member => stands.latest up (List.mem_of_mem_erase member),
    stands.fetching.erase attempt⟩

theorem acts_tokenFetched (stands : s.Stands phase) (settled : phase.isSettled = true)
    (attempt : Nat) (result : Except Unit (Option String)) :
    Acts ordered (s.delivery phase) [] false (s.tokenFetched attempt result) := by
  have later : Acts ordered (s.delivery phase) [] false
      { s with fetches := s.fetches.erase attempt } :=
    (stands.answered attempt).acts settled
  unfold tokenFetched
  split
  next asked =>
    dsimp only
    split
    next last =>
      subst last
      have member : s.currentFetchTokenAttempt ∈ s.fetches := by simpa using asked
      have none : phase.realtime = none := by
        by_contra up
        exact stands.latest up member
      have realtime : s.realtime = .none := stands.realtime.trans none
      have fetching := stands.fetching.erase s.currentFetchTokenAttempt
      cases result with
      | error _ =>
        have failed : Goes ordered (s.delivery phase)
            { s with
              fetches := s.fetches.erase s.currentFetchTokenAttempt
              connectionState := .disconnected } .disconnected :=
          .move (stands_disconnected rfl realtime (stands.idle_of_none none) fetching)
            (.wait none rfl)
        exact (failed.trans (goes_tryScheduleReconnect failed.stands)).acts rfl
      | ok token =>
        dsimp only
        split
        next state =>
          have getting : phase = .gettingToken := by
            have state' : .gettingToken = phase.connectionState := state.symm.trans stands.state
            cases phase with
            | gettingToken => rfl
            | _ => contradiction
          subst getting
          unfold openNetworkConnectionWithToken
          rw [nsAssert_of (decide_eq_true state)]
          have idle := stands.idle_of_none rfl
          refine (show Goes ordered _ _ (.connecting s.connections) from
            .move ?_ (.open rfl idle)).acts rfl
          exact ⟨rfl, rfl, fun _ => idle, fun _ => stands.retry (by simp),
            fun _ => stands.fetching.nodup.not_mem_erase, fetching⟩
        next state =>
          have down : s.connectionState = .disconnected := by
            have state' := stands.state
            cases phase with
            | disconnected => exact state'
            | gettingToken => exact absurd state' state
            | _ => contradiction
          rw [nsAssert_of (decide_eq_true down)]
          exact later
    next => exact later
  next => exact stands.acts settled

theorem acts_onHandshake (stands : s.Stands phase) (settled : phase.isSettled = true) :
    Acts ordered (s.delivery phase) [] false s.onHandshake := by
  unfold onHandshake
  split
  next => exact stands.acts settled
  next realtime up =>
    split
    next => exact stands.acts settled
    next opening =>
      have opened : phase.realtime = some realtime := stands.of_realtime up
      obtain ⟨number, rfl⟩ : ∃ number, phase = .connecting number := by
        cases phase with
        | connecting number => exact ⟨number, rfl⟩
        | disconnected => contradiction
        | gettingToken => contradiction
        | _ => exact absurd (congrArg FConnection.connected (Option.some.inj opened)).symm opening
      obtain rfl : ⟨number, false⟩ = realtime := Option.some.inj opened
      have ready : Goes ordered (s.delivery (.connecting number))
          { s with realtime := some ⟨number, true⟩ } (.ready number) := by
        refine .move ?_ (.establish rfl)
        exact ⟨stands.state, rfl, fun down => absurd rfl (down number),
          fun _ => stands.retry (by simp),
          fun _ => stands.latest (by simp [ConnectionPhase.realtime]), stands.fetching⟩
      obtain ⟨phase, settled, goes⟩ := @goes_onReady _ ordered _ _ ready.stands
      exact (ready.trans goes).acts settled

/-! ## While there is a connection -/

/-- A client that takes itself for connected has an established connection. -/
theorem Stands.established (stands : s.Stands phase) (connected : s.connected = true) :
    ∃ number, phase.realtime = some ⟨number, true⟩ := by
  have state : phase.connectionState = .authenticating ∨ phase.connectionState = .connected := by
    rw [← stands.state]
    simpa [FPersistentConnection.connected] using connected
  cases phase with
  | authenticating number => exact ⟨number, rfl⟩
  | restoring number puts => exact ⟨number, rfl⟩
  | connected number => exact ⟨number, rfl⟩
  | _ => simp [ConnectionPhase.connectionState] at state

theorem Stands.eq_connected (stands : s.Stands phase) (settled : phase.isSettled = true)
    (writes : s.canSendWrites = true) : ∃ number, phase = .connected number := by
  have state : .connected = phase.connectionState :=
    (of_decide_eq_true writes).symm.trans stands.state
  cases phase with
  | connected number => exact ⟨number, rfl⟩
  | restoring number puts => contradiction
  | _ => contradiction

theorem acts_listen (stands : s.Stands phase) (settled : phase.isSettled = true)
    (query : FQuerySpec) (tagId : Option Int) :
    Acts ordered (s.delivery phase) (Event.mistakes s (.listen query tagId)) false
      (s.listen query tagId) := by
  unfold listen
  dsimp only
  rw [nsAssert_eq, nsAssert_eq, accused_append]
  split
  next connected =>
    obtain ⟨number, up⟩ := stands.established connected
    have sent (texts : List String) (listens : List FOutstandingQuery) (queries : Nat)
        (listenSpec : FOutstandingQuery) :
        Goes ordered ((s.delivery phase).accuse texts)
          (sendListen { s.accused texts with listens, queries } listenSpec) phase :=
      goes_sendListen (s := { s.accused texts with listens, queries }) stands up listenSpec
    exact (sent _ _ _ _).acts_accused settled
  next => exact Goes.acts_accused ⟨stands, .refl⟩ settled

theorem acts_unlisten (stands : s.Stands phase) (settled : phase.isSettled = true)
    (query : FQuerySpec) (tagId : Option Int) :
    Acts ordered (s.delivery phase) (Event.mistakes s (.unlisten query tagId)) false
      (s.unlisten query tagId) := by
  unfold unlisten removeListen
  rw [nsAssert_eq]
  dsimp only
  split
  next send =>
    rw [Bool.and_eq_true] at send
    obtain ⟨number, up⟩ := stands.established send.2
    have sent (texts : List String) (listens : List FOutstandingQuery) :
        Goes ordered ((s.delivery phase).accuse texts)
          (sendAction { s.accused texts with listens } (.unlisten query tagId) none) phase :=
      goes_sendAction (s := { s.accused texts with listens }) stands up rfl (by simp)
    exact (sent _ _).acts_accused settled
  next => exact Goes.acts_accused ⟨stands, .refl⟩ settled

theorem acts_putInternal (stands : s.Stands phase) (settled : phase.isSettled = true)
    (action pathString : String) (data : α) (hash : Option String) :
    Acts ordered (s.delivery phase) [] true (s.putInternal action pathString data hash) := by
  unfold putInternal
  dsimp only
  split
  next writes =>
    obtain ⟨number, rfl⟩ := stands.eq_connected settled writes
    have added : Stands { s with
        putCounter := s.putCounter + 1
        outstandingPuts := s.outstandingPuts ++
          [(s.putCounter, ⟨action, pathString, data, hash, false⟩)] } (.connected number) := stands
    have held : ((s.outstandingPuts ++
        [(s.putCounter, (⟨action, pathString, data, hash, false⟩ : FOutstandingPut α))]).lookup
          s.putCounter).isSome := by
      simp [List.lookup_append]
    refine ⟨.connected number, rfl, added.sendPut rfl rfl held, ?_⟩
    rw [delivery_sendPut added.state added.realtime held]
    exact .deliver rfl rfl
  next waits =>
    refine ⟨phase, settled, stands, .keep rfl ?_⟩
    exact fun state => waits (decide_eq_true (stands.state.trans state))

theorem acts_onDisconnectAction (stands : s.Stands phase) (settled : phase.isSettled = true)
    (tuple : FTupleOnDisconnect α) :
    Acts ordered (s.delivery phase) [] false (s.onDisconnectAction tuple) := by
  unfold onDisconnectAction
  split
  next writes =>
    obtain ⟨number, rfl⟩ := stands.eq_connected settled writes
    exact (goes_sendOnDisconnectAction stands rfl tuple).acts rfl
  next => exact Goes.acts ⟨stands, .refl⟩ settled

theorem acts_refreshAuthToken (stands : s.Stands phase) (settled : phase.isSettled = true)
    (token : Option String) :
    Acts ordered (s.delivery phase) [] false (s.refreshAuthToken token) := by
  unfold refreshAuthToken
  dsimp only
  split
  next connected =>
    obtain ⟨number, up⟩ := stands.established connected
    split
    next held =>
      rw [sendAuth_eq connected held]
      have sent (credential : String) :
          Goes ordered (s.delivery phase)
            (sendAction { s with authToken := token } (.auth credential) (some (.auth false)))
            phase :=
        goes_sendAction (s := { s with authToken := token }) stands up rfl
          (by simp [FCallback.Fits, settled])
      exact (sent _).acts settled
    next =>
      have sent : Goes ordered (s.delivery phase)
          (sendAction { s with authToken := token } .unauth none) phase :=
        goes_sendAction (s := { s with authToken := token }) stands up rfl (by simp)
      exact sent.acts settled
  next => exact Goes.acts ⟨stands, .refl⟩ settled

theorem acts_purgeOutstandingWrites (stands : s.Stands phase) (settled : phase.isSettled = true) :
    Acts ordered (s.delivery phase) [] false s.purgeOutstandingWrites := by
  have plain : ∀ output ∈ s.onDisconnectQueue.map fun tuple =>
      (.onDisconnectCompleted tuple.onComplete "write_canceled" none : FOutput α),
      output.Plain := by
    exact List.forall_mem_map.mpr fun _ _ => ⟨rfl, rfl, rfl⟩
  have moves : Moves ordered (s.delivery phase) (s.purgeOutstandingWrites.delivery phase) :=
    .tail (.single .purge) (.report plain)
  exact Goes.acts ⟨stands, moves⟩ settled

theorem acts_onListenRevoked (stands : s.Stands phase) (settled : phase.isSettled = true)
    (path : String) : Acts ordered (s.delivery phase) [] false (s.onListenRevoked path) := by
  have plain : ∀ output ∈ (s.listens.filter fun listenSpec => listenSpec.query.path = path).map
      fun listenSpec => (.listenCompleted listenSpec.number "permission_denied" : FOutput α),
      output.Plain := by
    exact List.forall_mem_map.mpr fun _ _ => ⟨rfl, rfl, rfl⟩
  have moves : Moves ordered (s.delivery phase) ((s.onListenRevoked path).delivery phase) :=
    .single (.report plain)
  exact Goes.acts ⟨stands, moves⟩ settled

/-! ## Answers -/

/-- Not the answer to a later request while an earlier one waits. -/
def Event.answersFirst (s : FPersistentConnection α) : Event α → Bool
  | .response rn _ _ =>
      (s.requestCBHash.lookup rn).isNone || s.requestCBHash.head?.any fun entry => entry.1 = rn
  | _ => true

theorem hears_of_lookup {rn : Nat} {status : String} {responseData : Option String}
    {callback : FCallback} (found : s.requestCBHash.lookup rn = some callback)
    (first : ordered → Event.answersFirst s (.response rn status responseData) = true) :
    (s.delivery phase).Hears ordered rn callback := by
  refine ⟨found, fun inOrder => ?_⟩
  have oldest := first inOrder
  rw [Event.answersFirst, found] at oldest
  change ∃ later, s.requestCBHash = (rn, callback) :: later
  cases hash : s.requestCBHash with
  | nil =>
    rw [hash] at found
    contradiction
  | cons head later =>
    obtain ⟨key, held⟩ := head
    have same : key = rn := by simpa [hash] using oldest
    subst same
    rw [hash, List.lookup_cons_self, Option.some.injEq] at found
    exact ⟨later, by rw [found]⟩

/-- The answer is waited for no longer. -/
def heard (s : FPersistentConnection α) (rn : Nat) : FPersistentConnection α :=
  { s with requestCBHash := s.requestCBHash.filter fun entry => entry.1 ≠ rn }

theorem Stands.heard {rn : Nat} (stands : s.Stands phase)
    (up : phase.realtime = some ⟨number, true⟩) : (s.heard rn).Stands phase :=
  stands.await up _

/-- An answer is waited for on an established connection only. -/
theorem Stands.of_lookup (stands : s.Stands phase) (settled : phase.isSettled = true) {rn : Nat}
    {callback : FCallback} (found : s.requestCBHash.lookup rn = some callback) :
    ∃ number, phase.realtime = some ⟨number, true⟩ ∧
      (phase = .authenticating number ∨ phase = .connected number) := by
  have waiting : s.requestCBHash ≠ [] := by
    intro none
    rw [none] at found
    contradiction
  cases phase with
  | authenticating number => exact ⟨number, rfl, .inl rfl⟩
  | connected number => exact ⟨number, rfl, .inr rfl⟩
  | ready number => contradiction
  | restoring number puts => contradiction
  | _ => exact absurd (stands.idle (by simp [ConnectionPhase.realtime])) waiting

theorem acts_onAuthResponse {rn : Nat} {restore : Bool} (stands : s.Stands phase)
    (before : phase = .authenticating number ∨ phase = .connected number)
    (hears : (s.delivery phase).Hears ordered rn (.auth restore)) (status : String) :
    Acts ordered (s.delivery phase) [] false ((s.heard rn).onAuthResponse restore status) := by
  have up : phase.realtime = some ⟨number, true⟩ := by
    rcases before with rfl | rfl
    · rfl
    · rfl
  have away : phase ≠ .disconnected := by
    rintro rfl
    contradiction
  have authenticated (later : ConnectionPhase) (state : later.connectionState = .connected)
      (realtime : later.realtime = some ⟨number, true⟩) :
      Stands { s.heard rn with connectionState := .connected } later :=
    ⟨state.symm, (stands.realtime.trans up).trans realtime.symm,
      fun down => absurd realtime (down number), fun _ => stands.retry away,
      fun _ => stands.latest (by simp [up]), stands.fetching⟩
  unfold onAuthResponse
  dsimp only
  split
  · split
    next restoring =>
      subst restoring
      have admitted := authenticated (.restoring number (sortedKeys s.outstandingPuts)) rfl rfl
      have goes := (Goes.move admitted (.permit before hears)).trans (goes_restoreState admitted)
      exact goes.acts rfl
    next stays =>
      obtain rfl : restore = false := by simpa using stays
      exact (Goes.move (authenticated (.connected number) rfl rfl) (.renew before hears)).acts rfl
  · have there : s.realtime ≠ none := by simp [stands.realtime.trans up]
    have refused := close_spec (s := { s.heard rn with
      connectionState := .connected
      authToken := none
      forceAuthTokenRefresh := true }) there stands.fetching phase
    exact acts_of_close (by simp [up]) refused.1 refused.2

theorem unackListen_eq (s : FPersistentConnection α) :
    s.unackListen =
      if s.unackedListensCount - 1 = 0 then
        { s with unackedListensCount := s.unackedListensCount - 1 }.ackPuts
      else { s with unackedListensCount := s.unackedListensCount - 1 } := by
  unfold unackListen
  dsimp only
  rw [nsAssert_of (decide_eq_true UInt64.zero_le)]

theorem delivery_unackListen (s : FPersistentConnection α) (phase : ConnectionPhase) :
    s.unackListen.delivery phase = (s.delivery phase).unack := by
  rw [unackListen_eq]
  change _ = if s.unackedListensCount - 1 = 0 then _ else _
  split
  · rfl
  · rfl

theorem Stands.unackListen (stands : s.Stands phase) : s.unackListen.Stands phase := by
  rw [unackListen_eq]
  split
  · exact stands
  · exact stands

/-- The answer to a listen is heard last. -/
theorem goes_unackListen {rn : Nat} {listenSpec : FOutstandingQuery} (stands : s.Stands phase)
    (up : phase.realtime = some ⟨number, true⟩)
    (hears : (s.delivery phase).Hears ordered rn (.listen listenSpec)) :
    Goes ordered (s.delivery phase) (s.heard rn).unackListen phase := by
  refine .move (stands.heard up).unackListen ?_
  rw [delivery_unackListen]
  exact .hearListen hears

theorem acts_onListenResponse {rn : Nat} {listenSpec : FOutstandingQuery} {status : String}
    {responseData : Option String} (stands : s.Stands phase) (settled : phase.isSettled = true)
    (up : phase.realtime = some ⟨number, true⟩)
    (hears : (s.delivery phase).Hears ordered rn (.listen listenSpec)) :
    Acts ordered (s.delivery phase) (Event.mistakes s (.response rn status responseData)) false
      ((s.heard rn).onListenResponse listenSpec status) := by
  have told : ∀ output ∈ [(.listenCompleted listenSpec.number status : FOutput α)],
      output.Plain := by
    intro output member
    rw [List.mem_singleton.mp member]
    exact ⟨rfl, rfl, rfl⟩
  -- The listens that are left and the mistake that is logged do not matter to what follows.
  have answered (texts : List String) (listens : List FOutstandingQuery) :
      Goes ordered ((s.delivery phase).accuse texts)
        (emit { (s.accused texts).heard rn with listens }
          (.listenCompleted listenSpec.number status)).unackListen phase := by
    have reported : Goes ordered ((s.delivery phase).accuse texts)
        (emit { s.accused texts with listens } (.listenCompleted listenSpec.number status))
        phase := .move stands (.report told)
    exact reported.trans (goes_unackListen reported.stands up ⟨hears.found, hears.first⟩)
  have mistakes : Event.mistakes s (.response rn status responseData) =
      if (s.heard rn).listens.contains listenSpec ∧ status ≠ "ok" then
        claim (listenSpec.query.isDefault || !listenSpec.query.loadsAllData)
          "removeListen called for non-default but complete query"
      else [] := by
    have found : s.requestCBHash.lookup rn = some (.listen listenSpec) := hears.found
    simp only [Event.mistakes, found]
    rfl
  have none : s.accused [] = s := by simp [accused]
  rw [mistakes]
  unfold onListenResponse
  by_cases there : (s.heard rn).listens.contains listenSpec
  · rw [if_pos there]
    by_cases refused : status ≠ "ok"
    · rw [if_pos refused, if_pos ⟨there, refused⟩]
      unfold removeListen
      rw [nsAssert_eq]
      exact (answered _ _).acts_accused settled
    · rw [if_neg refused, if_neg fun both => refused both.2]
      have goes := answered [] s.listens
      rw [none] at goes
      exact goes.acts_accused settled
  · rw [if_neg there, if_neg fun both => there both.1]
    exact (goes_unackListen stands up hears).acts settled

/-- A put that is answered is settled. -/
theorem delivery_onPutResponse {index : Nat} (held : (s.outstandingPuts.lookup index).isSome)
    (status : String) (errorReason : Option String) :
    (s.onPutResponse index status errorReason).delivery phase =
      (s.delivery phase).settle ⟨index, status, errorReason⟩ := by
  unfold onPutResponse
  rw [if_pos held]
  change _ = if s.unackedListensCount = 0 then _ else _
  dsimp only
  split
  · rfl
  · rfl

theorem Stands.onPutResponse {index : Nat} (stands : s.Stands phase) (status : String)
    (errorReason : Option String) : (s.onPutResponse index status errorReason).Stands phase := by
  unfold FPersistentConnection.onPutResponse
  dsimp only
  split
  · split
    · exact stands
    · exact stands
  · exact stands

theorem acts_onPutResponse {rn index : Nat} (stands : s.Stands phase)
    (settled : phase.isSettled = true) (up : phase.realtime = some ⟨number, true⟩)
    (hears : (s.delivery phase).Hears ordered rn (.put index)) (status : String)
    (errorReason : Option String) :
    Acts ordered (s.delivery phase) [] false
      ((s.heard rn).onPutResponse index status errorReason) := by
  have answered : ((s.heard rn).onPutResponse index status errorReason).Stands phase :=
    (stands.heard up).onPutResponse status errorReason
  by_cases held : (s.outstandingPuts.lookup index).isSome
  · refine (Goes.move answered ?_).acts settled
    rw [delivery_onPutResponse (s := s.heard rn) held]
    exact @Move.hearPut _ ordered _ rn ⟨index, status, errorReason⟩ hears held
  · have gone : ∀ other ∈ (s.delivery phase).indexes, FCallback.put index ≠ .put other := by
      intro other member same
      obtain ⟨entry, held', rfl⟩ := List.mem_map.mp member
      have none := Option.not_isSome_iff_eq_none.mp held
      rw [List.lookup_eq_none_iff] at none
      have ne := none entry held'
      simp [FCallback.put.inj same] at ne
    have same : (s.heard rn).onPutResponse index status errorReason = s.heard rn := if_neg held
    refine (Goes.move answered ?_).acts settled
    rw [same]
    exact .hear hears rfl (by simp) gone

theorem acts_onDataMessage (stands : s.Stands phase) (settled : phase.isSettled = true) {rn : Nat}
    {status : String} {responseData : Option String}
    (first : ordered → Event.answersFirst s (.response rn status responseData) = true) :
    Acts ordered (s.delivery phase) (Event.mistakes s (.response rn status responseData)) false
      (s.onDataMessage rn status responseData) := by
  unfold onDataMessage
  split
  next unknown =>
    rw [Event.mistakes, unknown]
    exact stands.acts settled
  next callback found =>
    obtain ⟨number, up, before⟩ := stands.of_lookup settled found
    have hears := @hears_of_lookup _ ordered s phase _ _ _ _ found first
    have plain (noListen : callback.isListen = false) :
        Event.mistakes s (.response rn status responseData) = [] := by
      rw [Event.mistakes, found]
      cases callback with
      | listen listenSpec => contradiction
      | _ => rfl
    cases callback with
    | auth restore =>
      rw [plain rfl]
      exact acts_onAuthResponse stands before hears status
    | listen listenSpec => exact acts_onListenResponse stands settled up hears
    | put index =>
      rw [plain rfl]
      exact acts_onPutResponse stands settled up hears status responseData
    | onDisconnect callback =>
      have told : ∀ output ∈
          [(.onDisconnectCompleted callback status responseData : FOutput α)], output.Plain := by
        intro output member
        rw [List.mem_singleton.mp member]
        exact ⟨rfl, rfl, rfl⟩
      have answered : Goes ordered (s.delivery phase) (s.heard rn) phase :=
        .move (stands.heard up) (.hear hears rfl (by simp) (by simp))
      have reported : Goes ordered ((s.heard rn).delivery phase)
          ((s.heard rn).emit (.onDisconnectCompleted callback status responseData)) phase :=
        .move answered.stands (.report told)
      rw [plain rfl]
      exact (answered.trans reported).acts settled
    | stats =>
      rw [plain rfl]
      exact (Goes.move (stands.heard up) (.hear hears rfl (by simp) (by simp))).acts settled

/-! ## Steps and runs -/

def Event.isPut : Event α → Bool
  | .put .. => true
  | _ => false

/-- **Each step of a client is a step of its delivery**, after the mistakes of the caller. -/
theorem acts_step (stands : s.Stands phase) (settled : phase.isSettled = true)
    {event : Event α} (first : ordered → event.answersFirst s = true) :
    Acts ordered (s.delivery phase) (event.mistakes s) event.isPut (s.step event) := by
  cases event with
  | listen query tagId => exact acts_listen stands settled query tagId
  | unlisten query tagId => exact acts_unlisten stands settled query tagId
  | put action pathString data hash =>
    exact acts_putInternal stands settled action pathString data hash
  | onDisconnectAction tuple => exact acts_onDisconnectAction stands settled tuple
  | refreshAuthToken token => exact acts_refreshAuthToken stands settled token
  | purgeOutstandingWrites => exact acts_purgeOutstandingWrites stands settled
  | interrupt reason => exact acts_interruptForReason stands reason
  | resume reason => exact acts_resumeForReason stands settled reason
  | reconnect => exact acts_reconnect stands settled
  | fetchToken => exact acts_fetchToken stands settled
  | tokenFetched attempt result => exact acts_tokenFetched stands settled attempt result
  | handshake => exact acts_onHandshake stands settled
  | response rn status responseData => exact acts_onDataMessage stands settled first
  | authRevoked =>
    exact acts_close (s := { s with authToken := none, forceAuthTokenRefresh := true }) stands
      settled
  | listenRevoked path => exact acts_onListenRevoked stands settled path
  | kill =>
    unfold FPersistentConnection.step onKill
    dsimp only
    split
    · exact acts_interruptForReason stands _
    · exact stands.acts settled
  | close => exact acts_close stands settled

/-- Each answer is the one to the oldest request that waits for one. -/
def answersInOrder (s : FPersistentConnection α) : List (Event α) → Bool
  | [] => true
  | event :: events => event.answersFirst s && answersInOrder (s.step event) events

theorem run_concat (s : FPersistentConnection α) (events : List (Event α)) (event : Event α) :
    s.run (events ++ [event]) = (s.run events).step event :=
  List.foldl_concat ..

theorem answersInOrder_concat (s : FPersistentConnection α) (events : List (Event α))
    (event : Event α) :
    s.answersInOrder (events ++ [event]) =
      (s.answersInOrder events && event.answersFirst (s.run events)) := by
  induction events generalizing s with
  | nil => simp [answersInOrder, run]
  | cons first events ih =>
    rw [List.cons_append, answersInOrder, ih, answersInOrder, Bool.and_assoc]
    rfl

theorem mistakes_concat (s : FPersistentConnection α) (events : List (Event α))
    (event : Event α) :
    s.mistakes (events ++ [event]) = s.mistakes events ++ event.mistakes (s.run events) := by
  induction events generalizing s with
  | nil => simp [mistakes, run]
  | cons first events ih =>
    rw [List.cons_append, mistakes, ih, mistakes, List.append_assoc]
    rfl

theorem stands_init : (init : FPersistentConnection α).Stands .disconnected :=
  stands_disconnected rfl rfl rfl ⟨.nil, by simp [init]⟩

/-- What the delivery has at the start and every step of it preserves, it has after every
run. -/
theorem run_induction {P : List (Event α) → Delivery α → Prop}
    (start : P [] (init.delivery .disconnected))
    (next : ∀ {events : List (Event α)} {event : Event α} {phase phase' : ConnectionPhase},
      (run init events).Stands phase → (run init (events ++ [event])).Stands phase' →
      P events ((run init events).delivery phase) →
      Step ordered ((run init events).delivery phase) (event.mistakes (run init events))
        event.isPut ((run init (events ++ [event])).delivery phase') →
      P (events ++ [event]) ((run init (events ++ [event])).delivery phase'))
    {events : List (Event α)}
    (inOrder : ordered → (init : FPersistentConnection α).answersInOrder events = true) :
    ∃ phase, phase.isSettled = true ∧ (run init events).Stands phase ∧
      P events ((run init events).delivery phase) := by
  induction events using List.reverseRecOn with
  | nil => exact ⟨.disconnected, rfl, stands_init, start⟩
  | append_singleton events event ih =>
    simp only [answersInOrder_concat, Bool.and_eq_true] at inOrder
    obtain ⟨phase, settled, stands, holds⟩ := ih fun here => (inOrder here).1
    obtain ⟨phase', settled', stands', step⟩ :=
      acts_step stands settled fun here => (inOrder here).2
    rw [← run_concat] at stands' step
    exact ⟨phase', settled', stands', next stands stands' holds step⟩

/-- A client that takes itself for connected has an established connection, and conversely. -/
theorem Stands.connected_iff (stands : s.Stands phase) (settled : phase.isSettled = true) :
    s.connected = true ↔ ∃ number, s.realtime = some ⟨number, true⟩ := by
  constructor
  · intro connected
    rw [stands.realtime]
    exact stands.established connected
  · rintro ⟨number, up⟩
    have up' := stands.of_realtime up
    rw [FPersistentConnection.connected, stands.state]
    cases phase with
    | authenticating number => rfl
    | connected number => rfl
    | ready number => contradiction
    | restoring number puts => contradiction
    | _ => simp [ConnectionPhase.realtime] at up'

/-- The listens that wait for an answer. -/
def unackedListens (s : FPersistentConnection α) : Nat := s.requestCBHash.countP (·.2.isListen)

/-- Whatever the caller, the network and the server do: the assertions that fail are those
that the caller's mistakes make fail, the client takes itself for connected when the
connection is established, and the listens that wait for an answer are counted. -/
theorem connection_run (events : List (Event α)) :
    let s := run init events
    s.log.filter FOutput.isFailure = (mistakes init events).map .assertionFailed ∧
      (s.connected = true ↔ ∃ number, s.realtime = some ⟨number, true⟩) ∧
      (s.unackedListens < 2 ^ 64 → s.unackedListensCount.toNat = s.unackedListens) := by
  obtain ⟨phase, settled, stands, awaiting, failures⟩ := @run_induction _ False
    (fun events d => d.Awaiting ∧
      d.log.filter FOutput.isFailure = (mistakes init events).map .assertionFailed)
    ⟨.of_idle rfl rfl, rfl⟩
    (by
      rintro events event phase phase' - - ⟨awaiting, failures⟩ step
      refine ⟨awaiting.step step, ?_⟩
      rw [step.failures, failures, mistakes_concat, List.map_append])
    events False.elim
  refine ⟨failures, stands.connected_iff settled, fun bound => ?_⟩
  have unacked : (run init events).unackedListensCount = .ofNat (run init events).unackedListens :=
    awaiting.unacked
  rw [unacked]
  exact UInt64.toNat_ofNat_of_lt' bound

end FPersistentConnection

end GAMember
