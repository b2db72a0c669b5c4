import Mathlib.Data.List.Sort

/-!
# The connection to the server

`FPersistentConnection` keeps a client connected. Connections come and go; on each
new one the client authenticates and then sends again whatever has not been
answered. What is written meanwhile is kept, a transaction that was under way is
given up, and an answer is matched with its request by a number.

The methods are steps of a state machine here, driven by the caller, by the server
and by the network in any order. What they send and whom they call back is kept in a
log, as are failed assertions and exceptions.
-/

namespace GAMember

/-! ## The state -/

inductive ConnectionState
  | disconnected
  | gettingToken
  | connecting
  | authenticating
  | connected
  deriving DecidableEq, Repr

/-- An `FConnection` that is not disconnected, numbered in the order of their making. -/
structure FConnection where
  number : Nat
  connected : Bool
  deriving DecidableEq, Repr

inductive FIndex
  | priority
  | value
  | key
  | path (path : String)
  deriving DecidableEq, Repr

/-- The values that a query starts and ends at are taken as they are exported. -/
structure FQueryParams where
  limitSet : Bool
  limit : Int
  viewFrom : Option String
  indexStartValue : Option String
  indexStartKey : Option String
  indexEndValue : Option String
  indexEndKey : Option String
  index : FIndex
  deriving DecidableEq, Repr

structure FQuerySpec where
  path : String
  params : FQueryParams
  deriving DecidableEq, Repr

/-- The number tells the objects apart. -/
structure FOutstandingQuery where
  number : Nat
  query : FQuerySpec
  tagId : Option Int
  deriving DecidableEq, Repr

structure FOutstandingPut (α : Type) where
  action : String
  pathString : String
  data : α
  hash : Option String
  sent : Bool

structure FTupleOnDisconnect (α : Type) where
  action : String
  pathString : String
  data : α
  onComplete : Nat

/-- What is sent. The index of a put is not in the message, it tells which put it is. -/
inductive FRequest (α : Type)
  | auth (credential : String)
  | unauth
  | listen (query : FQuerySpec) (tagId : Option Int)
  | unlisten (query : FQuerySpec) (tagId : Option Int)
  | put (index : Nat) (action pathString : String) (data : α) (hash : Option String)
  | onDisconnect (action pathString : String) (data : α)
  | stats

/-- The blocks that wait for an answer. -/
inductive FCallback
  | auth (restoreStateAfterComplete : Bool)
  | listen (listenSpec : FOutstandingQuery)
  | put (index : Nat)
  | onDisconnect (callback : Nat)
  | stats
  deriving DecidableEq, Repr

/-- What the client does to the outside. -/
inductive FOutput (α : Type)
  | sent (connection requestNumber : Nat) (request : FRequest α)
  | fetchToken (forceRefresh : Bool)
  | putCompleted (index : Nat) (status : String) (errorReason : Option String)
  | listenCompleted (number : Nat) (status : String)
  | onDisconnectCompleted (callback : Nat) (status : String) (errorReason : Option String)
  | assertionFailed (text : String)
  | raised (text : String)

structure FTupleCallbackStatus where
  index : Nat
  status : String
  errorReason : Option String

namespace FQueryParams

def defaultInstance : FQueryParams where
  limitSet := false
  limit := 0
  viewFrom := none
  indexStartValue := none
  indexStartKey := none
  indexEndValue := none
  indexEndKey := none
  index := .priority

def hasStart (self : FQueryParams) : Bool := self.indexStartValue.isSome

def hasEnd (self : FQueryParams) : Bool := self.indexEndValue.isSome

def isViewFromLeft (self : FQueryParams) : Bool :=
  match self.viewFrom with
  | some viewFrom => viewFrom = "l"
  | none => self.hasStart

def loadsAllData (self : FQueryParams) : Bool :=
  !(self.hasStart || self.hasEnd || self.limitSet)

def isDefault (self : FQueryParams) : Bool := self.loadsAllData && self.index = .priority

def isEqual (self other : FQueryParams) : Bool :=
  self.limitSet = other.limitSet && self.limit = other.limit && self.index = other.index &&
    self.indexStartKey = other.indexStartKey && self.indexStartValue = other.indexStartValue &&
    self.indexEndKey = other.indexEndKey && self.indexEndValue = other.indexEndValue &&
    self.isViewFromLeft = other.isViewFromLeft

end FQueryParams

namespace FQuerySpec

def defaultQueryAtPath (path : String) : FQuerySpec := ⟨path, .defaultInstance⟩

def isEqual (self other : FQuerySpec) : Bool :=
  self.path = other.path && self.params.isEqual other.params

def isDefault (self : FQuerySpec) : Bool := self.params.isDefault

def loadsAllData (self : FQuerySpec) : Bool := self.params.loadsAllData

end FQuerySpec

/-- Of `fetches` the token provider has not called back yet; a retry that is scheduled says
whether to force a new token. -/
structure FPersistentConnection (α : Type) where
  connectionState : ConnectionState
  firstConnection : Bool
  realtime : Option FConnection
  connections : Nat
  listens : List FOutstandingQuery
  queries : Nat
  outstandingPuts : List (Nat × FOutstandingPut α)
  onDisconnectQueue : List (FTupleOnDisconnect α)
  putCounter : Nat
  requestNumber : Nat
  requestCBHash : List (Nat × FCallback)
  unackedListensCount : UInt64
  putsToAck : List FTupleCallbackStatus
  interruptReasons : List String
  authToken : Option String
  forceAuthTokenRefresh : Bool
  currentFetchTokenAttempt : Nat
  fetches : List Nat
  scheduledRetry : Option Bool
  log : List (FOutput α)

variable {α : Type}

/-- Where each key is there once, only the entry found is removed with its key. -/
theorem perm_of_lookup {β : Type} {entries : List (Nat × β)} {key : Nat} {value : β}
    (nodup : (entries.map Prod.fst).Nodup) (found : entries.lookup key = some value) :
    entries.Perm ((key, value) :: entries.filter fun entry => entry.1 ≠ key) := by
  induction entries with
  | nil => simp at found
  | cons first entries ih =>
    obtain ⟨other, held⟩ := first
    rw [List.map_cons, List.nodup_cons] at nodup
    by_cases same : other = key
    · subst same
      have later : entries.filter (fun entry => entry.1 ≠ other) = entries := by
        rw [List.filter_eq_self]
        intro entry member
        have ne : entry.1 ≠ other := fun eq => nodup.1 (List.mem_map.mpr ⟨entry, member, eq⟩)
        simpa using ne
      rw [List.lookup_cons_self, Option.some.injEq] at found
      rw [List.filter_cons_of_neg (by simp), later, found]
    · rw [List.lookup_cons, beq_false_of_ne (Ne.symm same)] at found
      rw [List.filter_cons_of_pos (by simpa using same)]
      exact ((ih nodup.2 found).cons _).trans (.swap _ _ _)

namespace FPersistentConnection

/-! ## The methods -/

def init : FPersistentConnection α where
  connectionState := .disconnected
  firstConnection := true
  realtime := none
  connections := 0
  listens := []
  queries := 0
  outstandingPuts := []
  onDisconnectQueue := []
  putCounter := 1
  requestNumber := 1
  requestCBHash := []
  unackedListensCount := 0
  putsToAck := []
  interruptReasons := ["waiting_for_open"]
  authToken := none
  forceAuthTokenRefresh := false
  currentFetchTokenAttempt := 0
  fetches := []
  scheduledRetry := none
  log := []

def emit (self : FPersistentConnection α) (output : FOutput α) : FPersistentConnection α :=
  { self with log := self.log ++ [output] }

/-- Where assertions are compiled out, the method goes on. -/
def nsAssert (self : FPersistentConnection α) (condition : Bool) (text : String) :
    FPersistentConnection α :=
  if condition then self else self.emit (.assertionFailed text)

def connected (self : FPersistentConnection α) : Bool :=
  self.connectionState = .authenticating || self.connectionState = .connected

def canSendWrites (self : FPersistentConnection α) : Bool := self.connectionState = .connected

def shouldReconnect (self : FPersistentConnection α) : Bool := self.interruptReasons.isEmpty

/-- `sendRequest:` of the `FConnection`. -/
def sendRequest (self : FPersistentConnection α) (requestNumber : Nat) (request : FRequest α) :
    FPersistentConnection α :=
  match self.realtime with
  | none => self
  | some realtime =>
      if realtime.connected then self.emit (.sent realtime.number requestNumber request)
      else self.emit (.raised "Tried to send data on an unconnected FConnection")

def sendAction (self : FPersistentConnection α) (request : FRequest α)
    (onMessage : Option FCallback) : FPersistentConnection α :=
  let rn := self.requestNumber
  let sent := { self with requestNumber := rn + 1 }.sendRequest rn request
  match onMessage with
  | some callback => { sent with requestCBHash := sent.requestCBHash ++ [(rn, callback)] }
  | none => sent

def sendAuthAndRestoreStateAfterComplete (self : FPersistentConnection α)
    (restoreStateAfterComplete : Bool) : FPersistentConnection α :=
  let self := self.nsAssert self.connected "Must be connected to send auth"
  let self := self.nsAssert self.authToken.isSome "Can't send auth if there is no credential"
  self.sendAction (.auth (self.authToken.getD "")) (some (.auth restoreStateAfterComplete))

def sendUnauth (self : FPersistentConnection α) : FPersistentConnection α :=
  self.sendAction .unauth none

def sendOnDisconnectAction (self : FPersistentConnection α) (tuple : FTupleOnDisconnect α) :
    FPersistentConnection α :=
  self.sendAction (.onDisconnect tuple.action tuple.pathString tuple.data)
    (some (.onDisconnect tuple.onComplete))

/-- The put at the index has been sent. -/
def markSent (outstandingPuts : List (Nat × FOutstandingPut α)) (index : Nat) :
    List (Nat × FOutstandingPut α) :=
  outstandingPuts.map fun entry =>
    if entry.1 = index then (entry.1, { entry.2 with sent := true }) else entry

def sendPut (self : FPersistentConnection α) (index : Nat) : FPersistentConnection α :=
  let self := self.nsAssert self.canSendWrites "sendPut called when not able to send writes"
  match self.outstandingPuts.lookup index with
  | none => self.emit (.assertionFailed "put != nil")
  | some put =>
      { self with outstandingPuts := markSent self.outstandingPuts index }.sendAction
        (.put index put.action put.pathString put.data put.hash) (some (.put index))

def sendListen (self : FPersistentConnection α) (listenSpec : FOutstandingQuery) :
    FPersistentConnection α :=
  let sent := self.sendAction (.listen listenSpec.query listenSpec.tagId)
    (some (.listen listenSpec))
  { sent with unackedListensCount := sent.unackedListensCount + 1 }

def sortedKeys (outstandingPuts : List (Nat × FOutstandingPut α)) : List Nat :=
  (outstandingPuts.map Prod.fst).insertionSort (· ≤ ·)

def restoreState (self : FPersistentConnection α) : FPersistentConnection α :=
  let self := self.nsAssert (self.connectionState = .connected)
    "Should be connected if we're restoring state"
  let self := self.listens.foldl sendListen self
  let self := (sortedKeys self.outstandingPuts).foldl
    (fun self index =>
      if (self.outstandingPuts.lookup index).isSome then self.sendPut index else self) self
  let self := self.onDisconnectQueue.foldl sendOnDisconnectAction self
  { self with onDisconnectQueue := [] }

def restoreAuth (self : FPersistentConnection α) : FPersistentConnection α :=
  let self := self.nsAssert (self.connectionState = .connecting)
    "Wanted to restore auth, but was in wrong state"
  if self.authToken.isNone then { self with connectionState := .connected }.restoreState
  else { self with connectionState := .authenticating }.sendAuthAndRestoreStateAfterComplete true

/-- A sent put with a hash is one of a transaction. -/
def isSentTransaction (entry : Nat × FOutstandingPut α) : Bool :=
  entry.2.hash.isSome && entry.2.sent

/-- What the put of a transaction is told that is given up. -/
def cancelled (entry : Nat × FOutstandingPut α) : FOutput α :=
  .putCompleted entry.1 "disconnect" (some "Client was disconnected while running a transaction")

def cancelSentTransactions (self : FPersistentConnection α) : FPersistentConnection α :=
  { self with
    log := self.log ++ (self.outstandingPuts.filter isSentTransaction).map cancelled
    outstandingPuts := self.outstandingPuts.filter fun entry => !isSentTransaction entry }

def tryScheduleReconnect (self : FPersistentConnection α) : FPersistentConnection α :=
  if self.shouldReconnect then
    let self := self.nsAssert (self.connectionState = .disconnected) "Not in disconnected state"
    { self with
      scheduledRetry := some self.forceAuthTokenRefresh
      forceAuthTokenRefresh := false }
  else self

/-- `onDisconnect:withReason:`, called when the `FConnection` is closed. -/
def onDisconnect (self : FPersistentConnection α) : FPersistentConnection α :=
  let self := { self with connectionState := .disconnected, realtime := none }
  let self := self.cancelSentTransactions
  let self := { self with requestCBHash := [], unackedListensCount := 0 }
  if self.shouldReconnect then self.tryScheduleReconnect else self

/-- `close` of the `FConnection`, if there is one. -/
def close (self : FPersistentConnection α) : FPersistentConnection α :=
  match self.realtime with
  | none => self
  | some _ => self.onDisconnect

def interruptForReason (self : FPersistentConnection α) (reason : String) :
    FPersistentConnection α :=
  let self := { self with
    interruptReasons :=
      if self.interruptReasons.contains reason then self.interruptReasons
      else reason :: self.interruptReasons }
  if self.realtime.isSome then { self.close with realtime := none }
  else { self with scheduledRetry := none, connectionState := .disconnected }

def resumeForReason (self : FPersistentConnection α) (reason : String) :
    FPersistentConnection α :=
  let self := { self with interruptReasons := self.interruptReasons.filter (· ≠ reason) }
  if self.shouldReconnect ∧ self.connectionState = .disconnected then self.tryScheduleReconnect
  else self

/-- The network became reachable, or the app comes to the foreground. -/
def reconnect (self : FPersistentConnection α) : FPersistentConnection α :=
  if self.connectionState = .disconnected then self.tryScheduleReconnect else self

/-- The block of `retry:`. -/
def fetchToken (self : FPersistentConnection α) : FPersistentConnection α :=
  match self.scheduledRetry with
  | none => self
  | some forceRefresh =>
      let self := { self with scheduledRetry := none }
      let self := self.nsAssert (self.connectionState = .disconnected) "Not in disconnected state"
      { self with
        connectionState := .gettingToken
        currentFetchTokenAttempt := self.currentFetchTokenAttempt + 1
        fetches := self.fetches ++ [self.currentFetchTokenAttempt + 1]
        log := self.log ++ [.fetchToken forceRefresh] }

def openNetworkConnectionWithToken (self : FPersistentConnection α) (token : Option String) :
    FPersistentConnection α :=
  let self := self.nsAssert (self.connectionState = .gettingToken)
    "Trying to open network connection while in wrong state"
  { self with
    authToken := token
    connectionState := .connecting
    realtime := some ⟨self.connections, false⟩
    connections := self.connections + 1 }

/-- The callback of `fetchTokenForcingRefresh:`, with an error or a token, which may be nil. -/
def tokenFetched (self : FPersistentConnection α) (attempt : Nat)
    (result : Except Unit (Option String)) : FPersistentConnection α :=
  if self.fetches.contains attempt then
    let self := { self with fetches := self.fetches.erase attempt }
    if attempt = self.currentFetchTokenAttempt then
      match result with
      | .error _ => { self with connectionState := .disconnected }.tryScheduleReconnect
      | .ok token =>
          if self.connectionState = .gettingToken then self.openNetworkConnectionWithToken token
          else
            self.nsAssert (self.connectionState = .disconnected)
              "Expected connection state disconnected"
    else self
  else self

def onReady (self : FPersistentConnection α) : FPersistentConnection α :=
  let self := if self.firstConnection then self.sendAction .stats (some .stats) else self
  { self.restoreAuth with firstConnection := false }

/-- `onHandshake:` of the `FConnection`, if there is one. -/
def onHandshake (self : FPersistentConnection α) : FPersistentConnection α :=
  match self.realtime with
  | none => self
  | some realtime =>
      if realtime.connected then self
      else { self with realtime := some { realtime with connected := true } }.onReady

/-- The call of its block. -/
def acked (put : FTupleCallbackStatus) : FOutput α :=
  .putCompleted put.index put.status put.errorReason

def ackPuts (self : FPersistentConnection α) : FPersistentConnection α :=
  { self with
    log := self.log ++ self.putsToAck.map acked
    putsToAck := [] }

/-- The listens without the one to the query. -/
def withoutListen (listens : List FOutstandingQuery) (query : FQuerySpec) :
    List FOutstandingQuery :=
  listens.filter fun listenSpec => !listenSpec.query.isEqual query

def removeListen (self : FPersistentConnection α) (query : FQuerySpec) :
    FPersistentConnection α :=
  let self := self.nsAssert (query.isDefault || !query.loadsAllData)
    "removeListen called for non-default but complete query"
  { self with listens := withoutListen self.listens query }

/-- The block of `sendAuthAndRestoreStateAfterComplete:`. -/
def onAuthResponse (self : FPersistentConnection α) (restoreStateAfterComplete : Bool)
    (status : String) : FPersistentConnection α :=
  let self := { self with connectionState := .connected }
  if status = "ok" then
    if restoreStateAfterComplete then self.restoreState else self
  else { self with authToken := none, forceAuthTokenRefresh := true }.close

/-- An answer less is waited for. The count is unsigned, so the assertion says nothing. -/
def unackListen (self : FPersistentConnection α) : FPersistentConnection α :=
  let self := { self with unackedListensCount := self.unackedListensCount - 1 }
  let self := self.nsAssert (0 ≤ self.unackedListensCount)
    "unackedListensCount decremented to be negative."
  if self.unackedListensCount = 0 then self.ackPuts else self

/-- The block of `sendListen:`. -/
def onListenResponse (self : FPersistentConnection α) (listenSpec : FOutstandingQuery)
    (status : String) : FPersistentConnection α :=
  if self.listens.contains listenSpec then
    ((if status ≠ "ok" then self.removeListen listenSpec.query else self).emit
      (.listenCompleted listenSpec.number status)).unackListen
  else self.unackListen

/-- The block of `sendPut:`. An index is given to one put only. -/
def onPutResponse (self : FPersistentConnection α) (index : Nat) (status : String)
    (errorReason : Option String) : FPersistentConnection α :=
  if (self.outstandingPuts.lookup index).isSome then
    let self := { self with
      outstandingPuts := self.outstandingPuts.filter fun entry => entry.1 ≠ index }
    if self.unackedListensCount = 0 then self.emit (.putCompleted index status errorReason)
    else { self with putsToAck := self.putsToAck ++ [⟨index, status, errorReason⟩] }
  else self

def onResponse (self : FPersistentConnection α) (status : String)
    (responseData : Option String) : FCallback → FPersistentConnection α
  | .auth restoreStateAfterComplete => self.onAuthResponse restoreStateAfterComplete status
  | .listen listenSpec => self.onListenResponse listenSpec status
  | .put index => self.onPutResponse index status responseData
  | .onDisconnect callback => self.emit (.onDisconnectCompleted callback status responseData)
  | .stats => self

/-- `onDataMessage:` with the answer to a request. -/
def onDataMessage (self : FPersistentConnection α) (rn : Nat) (status : String)
    (responseData : Option String) : FPersistentConnection α :=
  match self.requestCBHash.lookup rn with
  | none => self
  | some callback =>
      { self with
        requestCBHash := self.requestCBHash.filter fun entry => entry.1 ≠ rn }.onResponse
          status responseData callback

def onAuthRevoked (self : FPersistentConnection α) : FPersistentConnection α :=
  { self with authToken := none, forceAuthTokenRefresh := true }.close

def onListenRevoked (self : FPersistentConnection α) (path : String) : FPersistentConnection α :=
  { self with
    listens := self.listens.filter fun listenSpec => listenSpec.query.path ≠ path
    log := self.log ++ (self.listens.filter fun listenSpec => listenSpec.query.path = path).map
      fun listenSpec => .listenCompleted listenSpec.number "permission_denied" }

/-- `onKill:`, called by the `FConnection`, which is closed after that in any case. -/
def onKill (self : FPersistentConnection α) : FPersistentConnection α :=
  if self.realtime.isSome then self.interruptForReason "server_kill" else self

def listen (self : FPersistentConnection α) (query : FQuerySpec) (tagId : Option Int) :
    FPersistentConnection α :=
  let self := self.nsAssert (!self.listens.any (·.query.isEqual query))
    "listen() called twice for the same query"
  let self := self.nsAssert (query.isDefault || !query.loadsAllData)
    "listen called for non-default but complete query"
  let outstanding : FOutstandingQuery := ⟨self.queries, query, tagId⟩
  let self := { self with
    listens := withoutListen self.listens query ++ [outstanding]
    queries := self.queries + 1 }
  if self.connected then self.sendListen outstanding else self

def unlisten (self : FPersistentConnection α) (query : FQuerySpec) (tagId : Option Int) :
    FPersistentConnection α :=
  let outstanding := self.listens.any (·.query.isEqual query)
  let self := self.removeListen query
  if outstanding && self.connected then self.sendAction (.unlisten query tagId) none else self

def putInternal (self : FPersistentConnection α) (action pathString : String) (data : α)
    (hash : Option String) : FPersistentConnection α :=
  let index := self.putCounter
  let put : FOutstandingPut α := ⟨action, pathString, data, hash, false⟩
  let self := { self with
    putCounter := index + 1
    outstandingPuts := self.outstandingPuts ++ [(index, put)] }
  if self.canSendWrites then self.sendPut index else self

/-- `onDisconnectPutData:`, `onDisconnectMergeData:` and `onDisconnectCancelPath:`. -/
def onDisconnectAction (self : FPersistentConnection α) (tuple : FTupleOnDisconnect α) :
    FPersistentConnection α :=
  if self.canSendWrites then self.sendOnDisconnectAction tuple
  else { self with onDisconnectQueue := self.onDisconnectQueue ++ [tuple] }

def refreshAuthToken (self : FPersistentConnection α) (token : Option String) :
    FPersistentConnection α :=
  let self := { self with authToken := token }
  if self.connected then
    if token.isSome then self.sendAuthAndRestoreStateAfterComplete false else self.sendUnauth
  else self

def purgeOutstandingWrites (self : FPersistentConnection α) : FPersistentConnection α :=
  let self := self.ackPuts
  { self with
    log := self.log ++ ((sortedKeys self.outstandingPuts).map fun index =>
      .putCompleted index "write_canceled" none) ++
      self.onDisconnectQueue.map fun tuple =>
        .onDisconnectCompleted tuple.onComplete "write_canceled" none
    outstandingPuts := []
    onDisconnectQueue := [] }

/-! ## Steps -/

/-- What the caller, the network and the server do. -/
inductive Event (α : Type)
  | listen (query : FQuerySpec) (tagId : Option Int)
  | unlisten (query : FQuerySpec) (tagId : Option Int)
  | put (action pathString : String) (data : α) (hash : Option String)
  | onDisconnectAction (tuple : FTupleOnDisconnect α)
  | refreshAuthToken (token : Option String)
  | purgeOutstandingWrites
  | interrupt (reason : String)
  | resume (reason : String)
  | reconnect
  | fetchToken
  | tokenFetched (attempt : Nat) (result : Except Unit (Option String))
  | handshake
  | response (rn : Nat) (status : String) (responseData : Option String)
  | authRevoked
  | listenRevoked (path : String)
  | kill
  | close

def step (s : FPersistentConnection α) : Event α → FPersistentConnection α
  | .listen query tagId => s.listen query tagId
  | .unlisten query tagId => s.unlisten query tagId
  | .put action pathString data hash => s.putInternal action pathString data hash
  | .onDisconnectAction tuple => s.onDisconnectAction tuple
  | .refreshAuthToken token => s.refreshAuthToken token
  | .purgeOutstandingWrites => s.purgeOutstandingWrites
  | .interrupt reason => s.interruptForReason reason
  | .resume reason => s.resumeForReason reason
  | .reconnect => s.reconnect
  | .fetchToken => s.fetchToken
  | .tokenFetched attempt result => s.tokenFetched attempt result
  | .handshake => s.onHandshake
  | .response rn status responseData => s.onDataMessage rn status responseData
  | .authRevoked => s.onAuthRevoked
  | .listenRevoked path => s.onListenRevoked path
  | .kill => s.onKill
  | .close => s.close

def run (s : FPersistentConnection α) (events : List (Event α)) : FPersistentConnection α :=
  events.foldl step s

end FPersistentConnection

end GAMember
