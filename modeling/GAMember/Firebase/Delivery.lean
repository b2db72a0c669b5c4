import GAMember.Firebase.Connection
import Mathlib.Logic.Relation

/-!
# Deliveries

What becomes of the puts depends on a part of a client only: how far it has got with
its connection, the puts that it keeps, the answers that it waits for and what it has
sent and reported. This part is a `Delivery`.

* `Move`: one thing that can happen to a delivery. The phase says what may: in
  `restoring` it lists the puts that are still to be sent again.
* `Step`: what one step of a client comes to, which is a few moves, a new put or the end
  of a connection. `GAMember.Firebase.Link` shows this of every method, so what moves,
  new puts and ends preserve holds in every run.

Where answers are heard, a move of an ordered delivery says that the answer is to the
oldest request.
-/

namespace GAMember

variable {α : Type}

/-! ## What is logged -/

def FOutput.isFailure : FOutput α → Bool
  | .assertionFailed _ => true
  | .raised _ => true
  | _ => false

/-- The put that is reported as completed. -/
def FOutput.completedPut : FOutput α → Option Nat
  | .putCompleted index _ _ => some index
  | _ => none

def FOutput.isPutSent : FOutput α → Bool
  | .sent _ _ (.put ..) => true
  | _ => false

def FRequest.isPut : FRequest α → Bool
  | .put .. => true
  | _ => false

def FCallback.isListen : FCallback → Bool
  | .listen _ => true
  | _ => false

/-- No matter of the puts. -/
structure FOutput.Plain (output : FOutput α) : Prop where
  harmless : output.isFailure = false
  noPut : output.completedPut = none
  notSent : output.isPutSent = false

/-! ## Phases -/

inductive ConnectionPhase
  | disconnected
  | gettingToken
  | connecting (number : Nat)
  | ready (number : Nat)
  | authenticating (number : Nat)
  | restoring (number : Nat) (puts : List Nat)
  | connected (number : Nat)
  deriving DecidableEq

namespace ConnectionPhase

def connectionState : ConnectionPhase → ConnectionState
  | disconnected => .disconnected
  | gettingToken => .gettingToken
  | connecting _ => .connecting
  | ready _ => .connecting
  | authenticating _ => .authenticating
  | restoring _ _ => .connected
  | connected _ => .connected

def realtime : ConnectionPhase → Option FConnection
  | disconnected => none
  | gettingToken => none
  | connecting number => some ⟨number, false⟩
  | ready number => some ⟨number, true⟩
  | authenticating number => some ⟨number, true⟩
  | restoring number _ => some ⟨number, true⟩
  | connected number => some ⟨number, true⟩

/-- A phase between two steps; a method goes through the others. -/
def isSettled : ConnectionPhase → Bool
  | ready _ => false
  | restoring _ _ => false
  | _ => true

end ConnectionPhase

/-- What the answer to a request that is no listen and no put may be heard by. A new credential
is not sent while the first one is to be sent yet. -/
def FCallback.Fits (phase : ConnectionPhase) : FCallback → Prop
  | .listen _ => False
  | .auth restoreStateAfterComplete => restoreStateAfterComplete = false ∧ phase.isSettled = true
  | _ => True

theorem FCallback.Fits.noListen {phase : ConnectionPhase} {callback : FCallback}
    (fits : callback.Fits phase) : callback.isListen = false := by
  cases callback with
  | listen listenSpec => contradiction
  | _ => rfl

/-! ## Deliveries -/

structure Delivery (α : Type) where
  phase : ConnectionPhase
  connections : Nat
  putCounter : Nat
  outstandingPuts : List (Nat × FOutstandingPut α)
  putsToAck : List FTupleCallbackStatus
  requestNumber : Nat
  requestCBHash : List (Nat × FCallback)
  unackedListensCount : UInt64
  log : List (FOutput α)

namespace FPersistentConnection

def delivery (self : FPersistentConnection α) (phase : ConnectionPhase) : Delivery α where
  phase := phase
  connections := self.connections
  putCounter := self.putCounter
  outstandingPuts := self.outstandingPuts
  putsToAck := self.putsToAck
  requestNumber := self.requestNumber
  requestCBHash := self.requestCBHash
  unackedListensCount := self.unackedListensCount
  log := self.log

end FPersistentConnection

namespace Delivery

open FPersistentConnection (markSent sortedKeys isSentTransaction cancelled acked)

def indexes (d : Delivery α) : List Nat := d.outstandingPuts.map Prod.fst

def enter (d : Delivery α) (phase : ConnectionPhase) : Delivery α := { d with phase }

def report (d : Delivery α) (outputs : List (FOutput α)) : Delivery α :=
  { d with log := d.log ++ outputs }

def accuse (d : Delivery α) (mistakes : List String) : Delivery α :=
  d.report (mistakes.map .assertionFailed)

/-- A request is sent over the connection with the number. -/
def send (d : Delivery α) (number : Nat) (request : FRequest α) (onMessage : Option FCallback) :
    Delivery α :=
  { d with
    requestNumber := d.requestNumber + 1
    requestCBHash := d.requestCBHash ++
      onMessage.toList.map fun callback => (d.requestNumber, callback)
    log := d.log ++ [.sent number d.requestNumber request] }

def sendListen (d : Delivery α) (number : Nat) (listenSpec : FOutstandingQuery) : Delivery α :=
  { d.send number (.listen listenSpec.query listenSpec.tagId) (some (.listen listenSpec)) with
    unackedListensCount := d.unackedListensCount + 1 }

def sendPut (d : Delivery α) (number index : Nat) : Delivery α :=
  match d.outstandingPuts.lookup index with
  | none => d
  | some put =>
      { d with outstandingPuts := markSent d.outstandingPuts index }.send number
        (.put index put.action put.pathString put.data put.hash) (some (.put index))

/-- An answer is heard and waited for no longer. -/
def hear (d : Delivery α) (rn : Nat) : Delivery α :=
  { d with requestCBHash := d.requestCBHash.filter fun entry => entry.1 ≠ rn }

def ack (d : Delivery α) : Delivery α :=
  { d with log := d.log ++ d.putsToAck.map acked, putsToAck := [] }

/-- An answer to a listen less is waited for. -/
def unack (d : Delivery α) : Delivery α :=
  let d := { d with unackedListensCount := d.unackedListensCount - 1 }
  if d.unackedListensCount = 0 then d.ack else d

/-- A put is answered: it is reported, or put aside while listens wait. -/
def settle (d : Delivery α) (put : FTupleCallbackStatus) : Delivery α :=
  let d := { d with
    outstandingPuts := d.outstandingPuts.filter fun entry => entry.1 ≠ put.index }
  if d.unackedListensCount = 0 then d.report [acked put]
  else { d with putsToAck := d.putsToAck ++ [put] }

def purge (d : Delivery α) : Delivery α :=
  { d.ack.report ((sortedKeys d.outstandingPuts).map fun index =>
      .putCompleted index "write_canceled" none) with
    outstandingPuts := [] }

def add (d : Delivery α) (put : FOutstandingPut α) : Delivery α :=
  { d with
    putCounter := d.putCounter + 1
    outstandingPuts := d.outstandingPuts ++ [(d.putCounter, put)] }

/-- The connection ends. -/
def close (d : Delivery α) : Delivery α :=
  { d with
    phase := .disconnected
    log := d.log ++ (d.outstandingPuts.filter isSentTransaction).map cancelled
    outstandingPuts := d.outstandingPuts.filter fun entry => !isSentTransaction entry
    requestCBHash := []
    unackedListensCount := 0 }

/-- The answer with this number is waited for by the callback. In an ordered delivery there
is none that is waited for longer. -/
structure Hears (ordered : Prop) (d : Delivery α) (rn : Nat) (callback : FCallback) : Prop where
  found : d.requestCBHash.lookup rn = some callback
  first : ordered → ∃ later, d.requestCBHash = (rn, callback) :: later

/-! ## Moves -/

inductive Move (ordered : Prop) (d : Delivery α) : Delivery α → Prop
  | report {outputs : List (FOutput α)} (plain : ∀ output ∈ outputs, output.Plain) :
      Move ordered d (d.report outputs)
  | wait {phase : ConnectionPhase} (before : d.phase.realtime = none)
      (after : phase.realtime = none) : Move ordered d (d.enter phase)
  | open (before : d.phase = .gettingToken) (idle : d.requestCBHash = []) :
      Move ordered d
        { d with phase := .connecting d.connections, connections := d.connections + 1 }
  | establish {number : Nat} (before : d.phase = .connecting number) :
      Move ordered d (d.enter (.ready number))
  | request {number : Nat} {request : FRequest α} {onMessage : Option FCallback}
      (up : d.phase.realtime = some ⟨number, true⟩) (noPut : request.isPut = false)
      (fits : ∀ callback ∈ onMessage, callback.Fits d.phase) :
      Move ordered d (d.send number request onMessage)
  | listen {number : Nat} {listenSpec : FOutstandingQuery}
      (up : d.phase.realtime = some ⟨number, true⟩) :
      Move ordered d (d.sendListen number listenSpec)
  | authenticate {number : Nat} {credential : String} (before : d.phase = .ready number) :
      Move ordered d
        ((d.enter (.authenticating number)).send number (.auth credential) (some (.auth true)))
  | trust {number : Nat} (before : d.phase = .ready number) :
      Move ordered d (d.enter (.restoring number (sortedKeys d.outstandingPuts)))
  | permit {number rn : Nat}
      (before : d.phase = .authenticating number ∨ d.phase = .connected number)
      (hears : d.Hears ordered rn (.auth true)) :
      Move ordered d ((d.hear rn).enter (.restoring number (sortedKeys d.outstandingPuts)))
  | renew {number rn : Nat}
      (before : d.phase = .authenticating number ∨ d.phase = .connected number)
      (hears : d.Hears ordered rn (.auth false)) :
      Move ordered d ((d.hear rn).enter (.connected number))
  | resend {number index : Nat} {puts : List Nat}
      (before : d.phase = .restoring number (index :: puts)) :
      Move ordered d ((d.sendPut number index).enter (.restoring number puts))
  | finish {number : Nat} (before : d.phase = .restoring number []) :
      Move ordered d (d.enter (.connected number))
  | hear {rn : Nat} {callback : FCallback} (hears : d.Hears ordered rn callback)
      (noListen : callback.isListen = false) (noAuth : callback ≠ .auth true)
      (settled : ∀ index ∈ d.indexes, callback ≠ .put index) :
      Move ordered d (d.hear rn)
  | hearListen {rn : Nat} {listenSpec : FOutstandingQuery}
      (hears : d.Hears ordered rn (.listen listenSpec)) :
      Move ordered d (d.hear rn).unack
  | hearPut {rn : Nat} {put : FTupleCallbackStatus} (hears : d.Hears ordered rn (.put put.index))
      (held : (d.outstandingPuts.lookup put.index).isSome) :
      Move ordered d ((d.hear rn).settle put)
  | purge : Move ordered d d.purge

abbrev Moves (ordered : Prop) : Delivery α → Delivery α → Prop :=
  Relation.ReflTransGen (Move ordered)

/-- What a step comes to after it has logged the mistakes of the caller, and whether a put is
made in it. -/
inductive Step (ordered : Prop) (d : Delivery α) : List String → Bool → Delivery α → Prop
  | moves {mistakes : List String} {d' : Delivery α}
      (moved : Moves ordered (d.accuse mistakes) d') : Step ordered d mistakes false d'
  | keep {put : FOutstandingPut α} (unsent : put.sent = false)
      (before : d.phase.connectionState ≠ .connected) : Step ordered d [] true (d.add put)
  | deliver {number : Nat} {put : FOutstandingPut α} (unsent : put.sent = false)
      (before : d.phase = .connected number) :
      Step ordered d [] true ((d.add put).sendPut number d.putCounter)
  | close (up : d.phase.realtime ≠ none) : Step ordered d [] false d.close

variable {ordered : Prop} {d d' : Delivery α}

theorem Moves.induction {P : Delivery α → Prop} (moved : Moves ordered d d')
    (each : ∀ {d d' : Delivery α}, P d → Move ordered d d' → P d') (start : P d) : P d' := by
  induction moved with
  | refl => exact start
  | tail _ move ih => exact each ih move

theorem sendPut_of_none {index : Nat} (missing : d.outstandingPuts.lookup index = none)
    (number : Nat) : d.sendPut number index = d := by
  unfold sendPut
  rw [missing]

theorem sendPut_of_some {index : Nat} {put : FOutstandingPut α}
    (held : d.outstandingPuts.lookup index = some put) (number : Nat) :
    d.sendPut number index = { d with
      outstandingPuts := markSent d.outstandingPuts index
      requestNumber := d.requestNumber + 1
      requestCBHash := d.requestCBHash ++ [(d.requestNumber, .put index)]
      log := d.log ++ [.sent number d.requestNumber
        (.put index put.action put.pathString put.data put.hash)] } := by
  unfold sendPut
  rw [held]
  rfl

/-! ## What is waited for -/

/-- The requests that wait for an answer have numbers of their own, and the listens among them
are counted. -/
structure Awaiting (d : Delivery α) : Prop where
  nodup : (d.requestCBHash.map Prod.fst).Nodup
  lt : ∀ rn ∈ d.requestCBHash.map Prod.fst, rn < d.requestNumber
  unacked : d.unackedListensCount = .ofNat (d.requestCBHash.countP (·.2.isListen))

namespace Awaiting

theorem congr (awaiting : d.Awaiting) (hash : d'.requestCBHash = d.requestCBHash)
    (requestNumber : d'.requestNumber = d.requestNumber)
    (unacked : d'.unackedListensCount = d.unackedListensCount) : d'.Awaiting := by
  refine ⟨?_, ?_, ?_⟩
  · rw [hash]
    exact awaiting.nodup
  · rw [hash, requestNumber]
    exact awaiting.lt
  · rw [hash, unacked]
    exact awaiting.unacked

theorem of_idle (idle : d.requestCBHash = []) (unacked : d.unackedListensCount = 0) :
    d.Awaiting := by
  refine ⟨?_, ?_, ?_⟩
  · rw [idle]
    exact .nil
  · simp [idle]
  · rw [idle, unacked]
    rfl

theorem send_listens (awaiting : d.Awaiting) (number : Nat) (request : FRequest α)
    (onMessage : Option FCallback) :
    Awaiting { d.send number request onMessage with
      unackedListensCount :=
        d.unackedListensCount + .ofNat (onMessage.toList.countP FCallback.isListen) } := by
  have later (key : Nat) (member : key ∈ d.requestCBHash.map Prod.fst) :
      key < d.requestNumber + 1 := Nat.lt_succ_of_lt (awaiting.lt key member)
  cases onMessage with
  | none =>
    refine ⟨?_, ?_, ?_⟩
    · simpa [Delivery.send] using awaiting.nodup
    · simpa [Delivery.send] using later
    · simpa [Delivery.send] using awaiting.unacked
  | some callback =>
    have hash : (d.send number request (some callback)).requestCBHash =
        d.requestCBHash ++ [(d.requestNumber, callback)] := rfl
    refine ⟨?_, ?_, ?_⟩
    · rw [hash, List.map_append, List.nodup_append]
      refine ⟨awaiting.nodup, by simp, ?_⟩
      intro key member other new
      have := awaiting.lt key member
      rw [List.map_singleton, List.mem_singleton] at new
      omega
    · intro key member
      rw [hash, List.map_append, List.mem_append] at member
      rcases member with earlier | new
      · exact later key earlier
      · rw [List.map_singleton, List.mem_singleton] at new
        rw [new]
        exact Nat.lt_succ_self _
    · rw [hash, List.countP_append, UInt64.ofNat_add, ← awaiting.unacked]
      simp

theorem send (awaiting : d.Awaiting) (number : Nat) (request : FRequest α)
    {onMessage : Option FCallback} (other : ∀ callback ∈ onMessage, callback.isListen = false) :
    (d.send number request onMessage).Awaiting := by
  have none : onMessage.toList.countP FCallback.isListen = 0 := by
    rw [List.countP_eq_zero]
    intro callback member
    simp [other callback (Option.mem_toList.mp member)]
  refine (awaiting.send_listens number request onMessage).congr rfl rfl ?_
  rw [none]
  simp [Delivery.send]

theorem sendListen (awaiting : d.Awaiting) (number : Nat) (listenSpec : FOutstandingQuery) :
    (d.sendListen number listenSpec).Awaiting :=
  awaiting.send_listens number _ _

theorem sendPut (awaiting : d.Awaiting) (number index : Nat) :
    (d.sendPut number index).Awaiting := by
  unfold Delivery.sendPut
  split
  · exact awaiting
  next put _ =>
    have marked : Awaiting { d with outstandingPuts := markSent d.outstandingPuts index } :=
      awaiting.congr rfl rfl rfl
    exact marked.send number _ (by simp [FCallback.isListen])

/-- The listens that are still waited for once an answer is heard. -/
theorem hear_unacked (awaiting : d.Awaiting) {rn : Nat} {callback : FCallback}
    (found : d.requestCBHash.lookup rn = some callback) :
    Awaiting { d.hear rn with
      unackedListensCount :=
        if callback.isListen then d.unackedListensCount - 1 else d.unackedListensCount } := by
  have entries := perm_of_lookup awaiting.nodup found
  refine ⟨awaiting.nodup.sublist (List.filter_sublist.map _), ?_, ?_⟩
  · intro key member
    exact awaiting.lt key ((List.filter_sublist.map _).subset member)
  · rw [awaiting.unacked, entries.countP_eq, List.countP_cons]
    dsimp only
    split
    · rw [UInt64.ofNat_add]
      exact UInt64.add_sub_cancel _ _
    · rfl

theorem hear (awaiting : d.Awaiting) {rn : Nat} {callback : FCallback}
    (found : d.requestCBHash.lookup rn = some callback) (noListen : callback.isListen = false) :
    (d.hear rn).Awaiting := by
  refine (awaiting.hear_unacked found).congr rfl rfl ?_
  simp [noListen, Delivery.hear]

theorem hearListen (awaiting : d.Awaiting) {rn : Nat} {listenSpec : FOutstandingQuery}
    (found : d.requestCBHash.lookup rn = some (.listen listenSpec)) :
    (d.hear rn).unack.Awaiting := by
  have heard := awaiting.hear_unacked found
  unfold unack
  dsimp only
  split
  · exact heard.congr rfl rfl rfl
  · exact heard

theorem settle (awaiting : d.Awaiting) (put : FTupleCallbackStatus) : (d.settle put).Awaiting := by
  unfold Delivery.settle
  dsimp only
  split
  · exact awaiting.congr rfl rfl rfl
  · exact awaiting.congr rfl rfl rfl

theorem move (awaiting : d.Awaiting) (move : Move ordered d d') : d'.Awaiting := by
  cases move with
  | request _ _ fits =>
    exact awaiting.send _ _ fun callback member => (fits callback member).noListen
  | listen _ => exact awaiting.sendListen _ _
  | authenticate _ =>
    have entered (phase : ConnectionPhase) : (d.enter phase).Awaiting := awaiting.congr rfl rfl rfl
    exact (entered _).send _ _ (by simp [FCallback.isListen])
  | permit _ hears => exact (awaiting.hear hears.found rfl).congr rfl rfl rfl
  | renew _ hears => exact (awaiting.hear hears.found rfl).congr rfl rfl rfl
  | resend _ => exact (awaiting.sendPut _ _).congr rfl rfl rfl
  | hear hears noListen _ _ => exact awaiting.hear hears.found noListen
  | hearListen hears => exact awaiting.hearListen hears.found
  | hearPut hears _ => exact (awaiting.hear hears.found rfl).settle _
  | _ => exact awaiting.congr rfl rfl rfl

theorem step {mistakes : List String} {isPut : Bool} (awaiting : d.Awaiting)
    (step : Step ordered d mistakes isPut d') : d'.Awaiting := by
  cases step with
  | moves moved => exact moved.induction .move (awaiting.congr rfl rfl rfl)
  | keep _ _ => exact awaiting.congr rfl rfl rfl
  | deliver _ _ =>
    have added (put : FOutstandingPut α) : (d.add put).Awaiting := awaiting.congr rfl rfl rfl
    exact (added _).sendPut _ _
  | close _ => exact of_idle rfl rfl

end Awaiting

/-! ## What is added to the log -/

/-- Only added to, and no failure. -/
def Grows (d d' : Delivery α) : Prop :=
  ∃ outputs, d'.log = d.log ++ outputs ∧ ∀ output ∈ outputs, output.isFailure = false

namespace Grows

theorem of_eq (same : d'.log = d.log) : d.Grows d' := ⟨[], by simp [same], by simp⟩

theorem concat {output : FOutput α} (log : d'.log = d.log ++ [output])
    (harmless : output.isFailure = false) : d.Grows d' :=
  ⟨[output], log, by simpa using harmless⟩

theorem trans {d'' : Delivery α} (first : d.Grows d') (second : d'.Grows d'') : d.Grows d'' := by
  obtain ⟨earlier, log, harmless⟩ := first
  obtain ⟨later, log', harmless'⟩ := second
  refine ⟨earlier ++ later, by rw [log', log, List.append_assoc], ?_⟩
  intro output member
  rcases List.mem_append.mp member with before | after
  · exact harmless output before
  · exact harmless' output after

theorem sendPut (d : Delivery α) (number index : Nat) : d.Grows (d.sendPut number index) := by
  unfold Delivery.sendPut
  split
  · exact of_eq rfl
  · exact concat rfl rfl

theorem ack (d : Delivery α) : d.Grows d.ack :=
  ⟨d.putsToAck.map acked, rfl, List.forall_mem_map.mpr fun _ _ => rfl⟩

theorem unack (d : Delivery α) : d.Grows d.unack := by
  unfold Delivery.unack
  dsimp only
  split
  · exact ack _
  · exact of_eq rfl

theorem settle (d : Delivery α) (put : FTupleCallbackStatus) : d.Grows (d.settle put) := by
  unfold Delivery.settle
  dsimp only
  split
  · exact concat rfl rfl
  · exact of_eq rfl

theorem move (move : Move ordered d d') : d.Grows d' := by
  cases move with
  | report plain => exact ⟨_, rfl, fun output member => (plain output member).harmless⟩
  | request _ _ _ => exact concat rfl rfl
  | listen _ => exact concat rfl rfl
  | authenticate _ => exact concat rfl rfl
  | resend _ => exact sendPut d _ _
  | hearListen _ => exact unack (d.hear _)
  | hearPut _ _ => exact settle (d.hear _) _
  | purge =>
    refine (ack d).trans ⟨_, rfl, ?_⟩
    exact List.forall_mem_map.mpr fun _ _ => rfl
  | _ => exact of_eq rfl

theorem moves (moved : Moves ordered d d') : d.Grows d' :=
  moved.induction (fun grows step => grows.trans (move step)) (of_eq rfl)

theorem failures (grows : d.Grows d') :
    d'.log.filter FOutput.isFailure = d.log.filter FOutput.isFailure := by
  obtain ⟨outputs, log, harmless⟩ := grows
  have none : outputs.filter FOutput.isFailure = [] := by
    rw [List.filter_eq_nil_iff]
    intro output member
    simp [harmless output member]
  rw [log, List.filter_append, none, List.append_nil]

end Grows

/-- No assertion fails but for a mistake of the caller. -/
theorem Step.failures {mistakes : List String} {isPut : Bool}
    (step : Step ordered d mistakes isPut d') :
    d'.log.filter FOutput.isFailure =
      d.log.filter FOutput.isFailure ++ mistakes.map .assertionFailed := by
  cases step with
  | moves moved =>
    have all : (mistakes.map (.assertionFailed : String → FOutput α)).filter FOutput.isFailure =
        mistakes.map .assertionFailed :=
      List.filter_eq_self.mpr (List.forall_mem_map.mpr fun _ _ => rfl)
    rw [(Grows.moves moved).failures, ← all]
    exact List.filter_append _ _
  | @keep put _ _ =>
    have same : d.Grows (d.add put) := .of_eq rfl
    rw [same.failures, List.map_nil, List.append_nil]
  | @deliver number put _ _ =>
    have sent : d.Grows ((d.add put).sendPut number d.putCounter) :=
      .trans (.of_eq rfl) (.sendPut (d.add put) number d.putCounter)
    rw [sent.failures, List.map_nil, List.append_nil]
  | close _ =>
    have closed : d.Grows d.close := ⟨_, rfl, List.forall_mem_map.mpr fun _ _ => rfl⟩
    rw [closed.failures, List.map_nil, List.append_nil]

end Delivery

end GAMember
