import GAMember.Firebase.Resend

/-!
# Transactions over a connection

A put with a hash is one of a transaction: the server takes it only if the data still hash to
that. It must not be sent twice, so one that is sent when the connection is lost is given up
and the transaction runs again; one that was not sent yet is kept and sent later.
-/

namespace GAMember

variable {α : Type}

/-- The put of a transaction that is sent. -/
def FOutput.transactionSent : FOutput α → Option Nat
  | .sent _ _ (.put index _ _ _ (some _)) => some index
  | _ => none

def transactionsSent (log : List (FOutput α)) : List Nat :=
  log.filterMap FOutput.transactionSent

theorem transactionsSent_append_of_others (log : List (FOutput α)) {outputs : List (FOutput α)}
    (others : ∀ output ∈ outputs, output.isPutSent = false) :
    transactionsSent (log ++ outputs) = transactionsSent log := by
  have none : outputs.filterMap FOutput.transactionSent = [] := by
    rw [List.filterMap_eq_nil_iff]
    intro output member
    have other := others output member
    cases output with
    | sent number rn request =>
      cases request with
      | put index action pathString data hash => simp [FOutput.isPutSent] at other
      | _ => rfl
    | _ => rfl
  rw [transactionsSent, List.filterMap_append, none, List.append_nil, transactionsSent]

theorem transactionsSent_concat_of_other (log : List (FOutput α)) {output : FOutput α}
    (other : output.isPutSent = false) :
    transactionsSent (log ++ [output]) = transactionsSent log := by
  refine transactionsSent_append_of_others log ?_
  intro last member
  rw [List.mem_singleton.mp member]
  exact other

namespace Delivery

open FPersistentConnection (markSent sortedKeys isSentTransaction cancelled acked)

variable {ordered : Prop} {d d' : Delivery α} {number n : Nat}

/-- The transactions that have not been sent on the connection of the phase, or that have been
given up when the one before was lost. -/
def Unsent : ConnectionPhase → Nat → Prop
  | .restoring _ puts, index => index ∈ puts
  | .connected _, _ => False
  | _, _ => True

/-- A put of a transaction that is kept has been sent on this connection or not at all, and its
mark says which. -/
structure Once (d : Delivery α) : Prop where
  nodup : (transactionsSent d.log).Nodup
  lt : ∀ index ∈ transactionsSent d.log, index < d.putCounter
  sent : ∀ entry ∈ d.outstandingPuts, entry.2.hash.isSome →
    (entry.1 ∈ transactionsSent d.log ↔ entry.2.sent = true)
  unsent : ∀ entry ∈ d.outstandingPuts, entry.2.hash.isSome → Unsent d.phase entry.1 →
    entry.2.sent = false

namespace Once

/-- No transaction is sent, and none that was not sent is said to be. -/
theorem congr (once : d.Once) (sent : transactionsSent d'.log = transactionsSent d.log)
    (putCounter : d'.putCounter = d.putCounter)
    (puts : ∀ entry ∈ d'.outstandingPuts, entry ∈ d.outstandingPuts)
    (phase : ∀ index, Unsent d'.phase index → Unsent d.phase index) : d'.Once := by
  refine ⟨?_, ?_, ?_, ?_⟩
  · rw [sent]
    exact once.nodup
  · rw [sent, putCounter]
    exact once.lt
  · rw [sent]
    exact fun entry member => once.sent entry (puts entry member)
  · exact fun entry member hashed asked =>
      once.unsent entry (puts entry member) hashed (phase entry.1 asked)

theorem report (once : d.Once) {outputs : List (FOutput α)}
    (others : ∀ output ∈ outputs, output.isPutSent = false) : (d.report outputs).Once :=
  once.congr (transactionsSent_append_of_others d.log others) rfl (fun _ member => member)
    fun _ unsent => unsent

theorem send (once : d.Once) (number : Nat) {request : FRequest α}
    (noPut : request.isPut = false) (onMessage : Option FCallback) :
    (d.send number request onMessage).Once :=
  once.congr (transactionsSent_concat_of_other d.log (isPutSent_sent noPut _ _)) rfl
    (fun _ member => member) fun _ unsent => unsent

theorem enter {phase : ConnectionPhase} (once : d.Once)
    (unsent : ∀ index, Unsent phase index → Unsent d.phase index) : (d.enter phase).Once :=
  once.congr rfl rfl (fun _ member => member) unsent

theorem ack (once : d.Once) : d.ack.Once :=
  once.congr
    (transactionsSent_append_of_others d.log (List.forall_mem_map.mpr fun _ _ => rfl)) rfl
    (fun _ member => member) fun _ unsent => unsent

theorem unack (once : d.Once) : d.unack.Once := by
  have counted : Once { d with unackedListensCount := d.unackedListensCount - 1 } :=
    once.congr rfl rfl (fun _ member => member) fun _ unsent => unsent
  unfold Delivery.unack
  dsimp only
  split
  · exact counted.ack
  · exact counted

theorem settle (once : d.Once) (put : FTupleCallbackStatus) : (d.settle put).Once := by
  have removed : Once { d with
      outstandingPuts := d.outstandingPuts.filter fun entry => entry.1 ≠ put.index } :=
    once.congr rfl rfl (fun _ member => List.mem_of_mem_filter member) fun _ unsent => unsent
  unfold Delivery.settle
  dsimp only
  split
  · refine removed.report ?_
    intro output member
    rw [List.mem_singleton.mp member]
    rfl
  · exact removed.congr rfl rfl (fun _ member => member) fun _ unsent => unsent

theorem purge (once : d.Once) : d.purge.Once := by
  have canceled : ∀ output ∈ (sortedKeys d.outstandingPuts).map fun index =>
      (.putCompleted index "write_canceled" none : FOutput α), output.isPutSent = false :=
    List.forall_mem_map.mpr fun _ _ => rfl
  refine (once.ack.report canceled).congr rfl rfl ?_ fun _ unsent => unsent
  intro entry member
  contradiction

/-- The transactions that were sent are given up, so that none that is kept was sent. -/
theorem close (once : d.Once) : d.close.Once := by
  have log : transactionsSent d.close.log = transactionsSent d.log :=
    transactionsSent_append_of_others d.log (List.forall_mem_map.mpr fun _ _ => rfl)
  refine ⟨log.symm ▸ once.nodup, log.symm ▸ once.lt, ?_, ?_⟩
  · rw [log]
    exact fun entry member => once.sent entry (List.mem_of_mem_filter member)
  · intro entry member hashed _
    have kept := (List.mem_filter.mp member).2
    simpa [isSentTransaction, hashed] using kept

theorem add (once : d.Once) {put : FOutstandingPut α} (unsent : put.sent = false) :
    (d.add put).Once := by
  have new : d.putCounter ∉ transactionsSent d.log := fun member =>
    Nat.lt_irrefl _ (once.lt _ member)
  refine ⟨once.nodup, fun index member => Nat.lt_succ_of_lt (once.lt index member), ?_, ?_⟩
  · intro entry member hashed
    rcases List.mem_append.mp member with earlier | last
    · exact once.sent entry earlier hashed
    · rw [List.mem_singleton.mp last]
      exact iff_of_false new (by simp [unsent])
  · intro entry member hashed asked
    rcases List.mem_append.mp member with earlier | last
    · exact once.unsent entry earlier hashed asked
    · rw [List.mem_singleton.mp last]
      exact unsent

theorem transactionsSent_sendPut {index : Nat} {put : FOutstandingPut α}
    (held : d.outstandingPuts.lookup index = some put) (number : Nat) :
    transactionsSent (d.sendPut number index).log =
      transactionsSent d.log ++ if put.hash.isSome then [index] else [] := by
  rw [sendPut_of_some held, transactionsSent, List.filterMap_append, transactionsSent]
  cases hash : put.hash with
  | none => simp [FOutput.transactionSent]
  | some hash => simp [FOutput.transactionSent]

/-- A put is sent that is none of a transaction or has not been sent before. -/
theorem sendPut {index : Nat} {phase : ConnectionPhase} (once : d.Once) (nodup : d.indexes.Nodup)
    (lt : index < d.putCounter)
    (new : ∀ put, d.outstandingPuts.lookup index = some put → put.hash.isSome → put.sent = false)
    (rest : ∀ other, Unsent phase other → other ≠ index ∧ Unsent d.phase other) :
    ((d.sendPut number index).enter phase).Once := by
  cases held : d.outstandingPuts.lookup index with
  | none =>
    rw [sendPut_of_none held]
    exact once.enter fun other unsent => (rest other unsent).2
  | some put =>
    have log := transactionsSent_sendPut held number
    have unique {entry : Nat × FOutstandingPut α} (member : entry ∈ d.outstandingPuts)
        (same : entry.1 = index) : entry = (index, put) := by
      rcases List.mem_cons.mp ((perm_of_lookup nodup held).mem_iff.mp member) with eq | other
      · exact eq
      · exact absurd same (by simpa using (List.mem_filter.mp other).2)
    have unmarked : put.hash.isSome → index ∉ transactionsSent d.log := by
      obtain ⟨before, after, entries, -⟩ := List.lookup_eq_some_iff.mp held
      intro hashed done
      have marked := (once.sent (index, put) (by simp [entries]) hashed).mp done
      rw [new put held hashed] at marked
      contradiction
    rw [sendPut_of_some held] at log ⊢
    refine ⟨?_, ?_, ?_, ?_⟩
    · refine log.symm ▸ ?_
      split
      next hashed =>
        rw [← List.concat_eq_append]
        exact once.nodup.concat (unmarked hashed)
      next =>
        rw [List.append_nil]
        exact once.nodup
    · intro other done
      rw [Delivery.enter, log, List.mem_append] at done
      rcases done with earlier | last
      · exact once.lt other earlier
      · split at last
        · rw [List.mem_singleton.mp last]
          exact lt
        · contradiction
    · intro entry marked hashed
      obtain ⟨before, member, rfl⟩ := List.mem_map.mp marked
      rw [Delivery.enter, log]
      by_cases same : before.1 = index
      · obtain rfl := unique member same
        rw [if_pos rfl] at hashed ⊢
        have last : put.hash.isSome := hashed
        simp [last]
      · rw [if_neg same] at hashed ⊢
        rw [List.mem_append, ← once.sent before member hashed, or_iff_left]
        split
        · simpa using same
        · simp
    · intro entry marked hashed asked
      obtain ⟨ne, asked⟩ := rest entry.1 asked
      obtain ⟨before, member, rfl⟩ := List.mem_map.mp marked
      by_cases same : before.1 = index
      · rw [if_pos same] at ne
        contradiction
      · rw [if_neg same] at hashed asked ⊢
        exact once.unsent before member hashed asked

theorem resend {index : Nat} {puts : List Nat} (once : d.Once) (order : d.Order)
    (books : Books n d) (before : d.phase = .restoring number (index :: puts)) :
    ((d.sendPut number index).enter (.restoring number puts)).Once := by
  have restoring := order.kept
  rw [before] at restoring
  refine once.sendPut books.nodup (restoring.lt index List.mem_cons_self) ?_ ?_
  · intro put held hashed
    obtain ⟨_, _, entries, -⟩ := List.lookup_eq_some_iff.mp held
    refine once.unsent (index, put) (by simp [entries]) hashed ?_
    rw [before]
    exact List.mem_cons_self
  · intro other asked
    have lt := (List.pairwise_cons.mp restoring.pairwise).1 other asked
    refine ⟨Nat.ne_of_gt lt, ?_⟩
    rw [before]
    exact List.mem_cons_of_mem index asked

theorem deliver {put : FOutstandingPut α} (once : d.Once) (books : Books n d)
    (unsent : put.sent = false) (before : d.phase = .connected number) :
    ((d.add put).sendPut number d.putCounter).Once := by
  have fresh : d.outstandingPuts.lookup d.putCounter = none := by
    rw [List.lookup_eq_none_iff]
    intro entry member
    have lt := books.lt_putCounter (List.mem_map_of_mem member)
    simp only [bne_iff_ne]
    omega
  have sent : (((d.add put).sendPut number d.putCounter).enter (.connected number)).Once := by
    refine (once.add unsent).sendPut (books.add put).nodup (Nat.lt_succ_self _) ?_ ?_
    · intro other held _
      rw [Delivery.add, List.lookup_append, fresh, Option.none_or, List.lookup_cons_self,
        Option.some.injEq] at held
      rw [← held]
      exact unsent
    · intro other asked
      contradiction
  refine sent.congr rfl rfl (fun _ member => member) fun index asked => ?_
  rw [phase_sendPut (d.add put), Delivery.add, before] at asked
  exact asked

theorem hear (once : d.Once) (rn : Nat) : (d.hear rn).Once :=
  once.congr rfl rfl (fun _ member => member) fun _ unsent => unsent

theorem move (once : d.Once) (order : d.Order) (books : Books n d) (move : Move ordered d d') :
    d'.Once := by
  cases move with
  | report plain => exact once.report fun output member => (plain output member).notSent
  | @wait phase before _ =>
    refine once.enter fun index _ => ?_
    cases phase : d.phase with
    | disconnected => trivial
    | gettingToken => trivial
    | _ => simp [phase, ConnectionPhase.realtime] at before
  | «open» before _ =>
    refine once.congr rfl rfl (fun _ member => member) fun index _ => ?_
    rw [before]
    trivial
  | establish before =>
    refine once.enter fun index _ => ?_
    rw [before]
    trivial
  | request _ noPut _ => exact once.send _ noPut _
  | @listen number listenSpec _ =>
    have sent : (d.send number (.listen listenSpec.query listenSpec.tagId)
        (some (.listen listenSpec))).Once := once.send _ rfl _
    exact sent.congr rfl rfl (fun _ member => member) fun _ unsent => unsent
  | authenticate before =>
    have entered (number : Nat) : (d.enter (.authenticating number)).Once := by
      refine once.enter fun index _ => ?_
      rw [before]
      trivial
    exact (entered _).send _ rfl _
  | trust before =>
    refine once.enter fun index _ => ?_
    rw [before]
    trivial
  | @permit number rn before hears =>
    refine once.congr rfl rfl (fun _ member => member) fun index _ => ?_
    rcases before with before | before
    · rw [before]
      trivial
    · have kept := order.kept
      rw [before] at kept
      obtain ⟨_, _, parts, -⟩ := List.lookup_eq_some_iff.mp hears.found
      exact absurd rfl (kept.noAuth (rn, .auth true) (by simp [parts]))
  | renew _ _ =>
    exact once.congr rfl rfl (fun _ member => member) (by simp [Delivery.enter, Unsent])
  | resend before => exact once.resend order books before
  | finish _ => exact once.enter (by simp [Unsent])
  | hear _ _ _ _ => exact once.hear _
  | hearListen _ => exact (once.hear _).unack
  | hearPut _ _ => exact (once.hear _).settle _
  | purge => exact once.purge

theorem step {mistakes : List String} {isPut : Bool} (inOrder : ordered) (once : d.Once)
    (order : d.Order) (awaiting : d.Awaiting) (books : Books n d)
    (step : Step ordered d mistakes isPut d') : d'.Once := by
  cases step with
  | moves moved =>
    have failed : ∀ output ∈ mistakes.map (.assertionFailed : String → FOutput α),
        output.isPutSent = false := List.forall_mem_map.mpr fun _ _ => rfl
    have accused : Books n (d.accuse mistakes) :=
      books.report (List.forall_mem_map.mpr fun _ _ => rfl)
    have all := moved.induction (P := fun d => d.Once ∧ d.Order ∧ d.Awaiting ∧ Books n d)
      (fun ⟨once, order, awaiting, books⟩ moved =>
        ⟨once.move order books moved, order.move inOrder awaiting books moved,
          awaiting.move moved, books.move moved⟩)
      ⟨once.report failed, order.report failed, awaiting.congr rfl rfl rfl, accused⟩
    exact all.1
  | keep unsent _ => exact once.add unsent
  | deliver unsent before => exact once.deliver books unsent before
  | close _ => exact once.close

end Once

/-! ## The loss of a connection -/

/-- A connection is not lost by a move. -/
theorem Move.keeps_realtime (move : Move ordered d d') (up : d.phase.realtime ≠ none) :
    d'.phase.realtime ≠ none := by
  cases move with
  | wait before _ => exact absurd before up
  | «open» _ _ => simp [ConnectionPhase.realtime]
  | establish _ => simp [Delivery.enter, ConnectionPhase.realtime]
  | authenticate _ => simp [Delivery.enter, Delivery.send, ConnectionPhase.realtime]
  | trust _ => simp [Delivery.enter, ConnectionPhase.realtime]
  | permit _ _ => simp [Delivery.enter, ConnectionPhase.realtime]
  | renew _ _ => simp [Delivery.enter, ConnectionPhase.realtime]
  | resend _ => simp [Delivery.enter, ConnectionPhase.realtime]
  | finish _ => simp [Delivery.enter, ConnectionPhase.realtime]
  | hearListen _ =>
    unfold unack
    dsimp only
    split
    · exact up
    · exact up
  | hearPut _ _ =>
    unfold settle
    dsimp only
    split
    · exact up
    · exact up
  | _ => exact up

/-- A step in which the connection is lost does nothing else. -/
theorem Step.eq_close {mistakes : List String} {isPut : Bool}
    (step : Step ordered d mistakes isPut d') (up : d.phase.realtime ≠ none)
    (down : d'.phase.realtime = none) : d' = d.close := by
  cases step with
  | moves moved =>
    exact absurd down (moved.induction (P := fun d => d.phase.realtime ≠ none)
      (fun up move => move.keeps_realtime up) up)
  | keep _ _ => exact absurd down up
  | @deliver number put _ _ =>
    rw [phase_sendPut (d.add put)] at down
    exact absurd down up
  | close _ => rfl

end Delivery

namespace FPersistentConnection

open Delivery (Books Order Once)

theorem once_init : ((init : FPersistentConnection α).delivery .disconnected).Once := by
  refine ⟨.nil, ?_, ?_, ?_⟩
  · intro index member
    contradiction
  · intro entry member
    contradiction
  · intro entry member
    contradiction

theorem once_run {events : List (Event α)}
    (ordered : (init : FPersistentConnection α).answersInOrder events) :
    ∃ phase, phase.isSettled = true ∧ (run init events).Stands phase ∧
      ((run init events).delivery phase).Once := by
  obtain ⟨phase, settled, stands, once, -⟩ := @run_induction _ True
    (fun events d => d.Once ∧ d.Order ∧ d.Awaiting ∧ Books (events.countP Event.isPut) d)
    ⟨once_init, order_init, .of_idle rfl rfl, rfl, .refl _⟩
    (by
      rintro events event phase phase' - - ⟨once, order, awaiting, books⟩ step
      rw [List.countP_append, List.countP_singleton]
      exact ⟨once.step trivial order awaiting books step, order.step trivial awaiting books step,
        awaiting.step step, books.step step⟩)
    events fun _ => ordered
  exact ⟨phase, settled, stands, once⟩

/-- The put of a transaction that has been sent, on any connection. -/
def isTransactionSent (log : List (FOutput α)) (entry : Nat × FOutstandingPut α) : Bool :=
  entry.2.hash.isSome && (transactionsSent log).contains entry.1

/-- A put of a transaction is sent and the connection lost; the transaction runs again and its
next put is sent, the first one is not. After that a put that is none of a transaction is. -/
def rerun : List (Event Nat) :=
  [.resume "waiting_for_open", .fetchToken, .tokenFetched 1 (.ok (some "token")), .handshake,
    .response 1 "ok" none, .response 2 "ok" none, .put "p" "/users/ann" 1 (some "hash"), .close,
    .put "p" "/users/ann" 2 (some "hash"), .fetchToken, .tokenFetched 2 (.ok (some "token")),
    .handshake, .response 4 "ok" none, .put "p" "/users/bob" 3 none]

-- The transaction that was sent is given up, the other put is kept.
example :
    (run init rerun).outstandingPuts.map Prod.fst = [2, 3] ∧
      ((run init rerun).step .close).outstandingPuts.map Prod.fst = [3] := by
  decide

-- Before the credential is answered the transaction has not been sent, and it is kept.
example :
    (transactionsSent (run init (rerun.take 12)).log) = [1] ∧
      ((run init (rerun.take 12)).step .close).outstandingPuts.map Prod.fst = [2] := by
  decide

end FPersistentConnection

end GAMember
