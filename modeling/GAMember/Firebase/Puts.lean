import GAMember.Firebase.Link

/-!
# What becomes of a put

Each put that the caller makes is kept until its callback is called, and this is called
once, however often the connection breaks meanwhile. A put that is answered while listens
wait for an answer is put aside, and reported with the others that were when the last of
these listens is answered.
-/

namespace GAMember

variable {α : Type}

namespace Delivery

open FPersistentConnection (markSent sortedKeys isSentTransaction cancelled acked)

variable {ordered : Prop} {d d' : Delivery α}

/-! ## Each put is at one place -/

/-- Outstanding, put aside, and reported. -/
def putsMade (d : Delivery α) : List Nat :=
  d.indexes ++ d.putsToAck.map FTupleCallbackStatus.index ++ d.log.filterMap FOutput.completedPut

/-- Each of the first `n` puts is at one place, once. -/
structure Books (n : Nat) (d : Delivery α) : Prop where
  putCounter : d.putCounter = n + 1
  putsMade : d.putsMade.Perm (List.range' 1 n)

theorem map_fst_markSent (outstandingPuts : List (Nat × FOutstandingPut α)) (index : Nat) :
    (markSent outstandingPuts index).map Prod.fst = outstandingPuts.map Prod.fst := by
  rw [markSent, List.map_map]
  refine List.map_congr_left fun entry _ => ?_
  simp only [Function.comp_apply]
  split <;> rfl

theorem indexes_sendPut (d : Delivery α) (number index : Nat) :
    (d.sendPut number index).indexes = d.indexes := by
  unfold sendPut
  split
  · rfl
  · exact map_fst_markSent d.outstandingPuts index

namespace Books

variable {n : Nat}

theorem nodup (books : Books n d) : d.indexes.Nodup := by
  have all := books.putsMade.nodup_iff.mpr List.nodup_range'
  rw [Delivery.putsMade, List.append_assoc] at all
  exact (List.nodup_append.mp all).1

theorem lt_putCounter (books : Books n d) {index : Nat} (member : index ∈ d.indexes) :
    index < d.putCounter := by
  have made : index ∈ d.putsMade := by
    rw [Delivery.putsMade, List.append_assoc]
    exact List.mem_append_left _ member
  have range := books.putsMade.mem_iff.mp made
  rw [List.mem_range'_1] at range
  rw [books.putCounter]
  omega

/-- Nothing is reported and the puts stay where they are. -/
theorem congr (books : Books n d) (putCounter : d'.putCounter = d.putCounter)
    (indexes : d'.indexes = d.indexes) (putsToAck : d'.putsToAck = d.putsToAck)
    (log : d'.log.filterMap FOutput.completedPut = d.log.filterMap FOutput.completedPut) :
    Books n d' := by
  refine ⟨putCounter.trans books.putCounter, ?_⟩
  rw [Delivery.putsMade, indexes, putsToAck, log]
  exact books.putsMade

theorem report (books : Books n d) {outputs : List (FOutput α)}
    (others : ∀ output ∈ outputs, output.completedPut = none) : Books n (d.report outputs) := by
  refine books.congr rfl rfl rfl ?_
  rw [Delivery.report, List.filterMap_append, List.filterMap_eq_nil_iff.mpr others,
    List.append_nil]

theorem send (books : Books n d) (number : Nat) (request : FRequest α)
    (onMessage : Option FCallback) : Books n (d.send number request onMessage) := by
  refine books.congr rfl rfl rfl ?_
  simp [Delivery.send, FOutput.completedPut]

theorem sendPut (books : Books n d) (number index : Nat) : Books n (d.sendPut number index) := by
  unfold Delivery.sendPut
  split
  · exact books
  · have marked : Books n { d with outstandingPuts := markSent d.outstandingPuts index } :=
      books.congr rfl (map_fst_markSent d.outstandingPuts index) rfl rfl
    exact marked.send number _ _

theorem ack (books : Books n d) : Books n d.ack := by
  refine ⟨books.putCounter, .trans ?_ books.putsMade⟩
  have completed : (d.putsToAck.map (acked (α := α))).filterMap FOutput.completedPut =
      d.putsToAck.map FTupleCallbackStatus.index := by
    rw [List.filterMap_map]
    exact congrFun List.filterMap_eq_map _
  rw [Delivery.putsMade, Delivery.ack, List.filterMap_append, completed, List.perm_iff_count]
  intro index
  simp only [Delivery.putsMade, Delivery.indexes, List.count_append, List.map_nil, List.count_nil]
  omega

theorem unack (books : Books n d) : Books n d.unack := by
  have counted : Books n { d with unackedListensCount := d.unackedListensCount - 1 } :=
    books.congr rfl rfl rfl rfl
  unfold Delivery.unack
  dsimp only
  split
  · exact counted.ack
  · exact counted

theorem settle (books : Books n d) {put : FTupleCallbackStatus}
    (held : (d.outstandingPuts.lookup put.index).isSome) : Books n (d.settle put) := by
  obtain ⟨outstanding, found⟩ := Option.isSome_iff_exists.mp held
  have entries := (perm_of_lookup books.nodup found).map Prod.fst
  rw [List.map_cons, List.perm_iff_count] at entries
  have made := books.putsMade
  unfold Delivery.settle
  dsimp only
  split
  · refine ⟨books.putCounter, .trans ?_ made⟩
    rw [List.perm_iff_count]
    intro other
    have count := entries other
    simp only [Delivery.putsMade, Delivery.indexes, Delivery.report, acked,
      List.filterMap_append, List.count_append, List.filterMap_cons, List.filterMap_nil,
      FOutput.completedPut, List.count_cons, List.count_nil] at count ⊢
    omega
  · refine ⟨books.putCounter, .trans ?_ made⟩
    rw [List.perm_iff_count]
    intro other
    have count := entries other
    simp only [Delivery.putsMade, Delivery.indexes, List.map_append, List.map_cons, List.map_nil,
      List.count_append, List.count_cons, List.count_nil] at count ⊢
    omega

theorem purge (books : Books n d) : Books n d.purge := by
  refine ⟨books.putCounter, .trans ?_ books.ack.putsMade⟩
  have keys : (sortedKeys d.outstandingPuts).Perm d.indexes := List.perm_insertionSort _ _
  have canceled : ((sortedKeys d.outstandingPuts).map fun index =>
      (.putCompleted index "write_canceled" none : FOutput α)).filterMap FOutput.completedPut =
        sortedKeys d.outstandingPuts := by
    rw [List.filterMap_map]
    exact List.filterMap_some
  rw [List.perm_iff_count] at keys ⊢
  intro index
  have count := keys index
  simp only [Delivery.putsMade, Delivery.purge, Delivery.report, Delivery.ack, Delivery.indexes,
    List.filterMap_append, canceled, List.map_nil, List.count_append, List.count_nil] at count ⊢
  omega

theorem add (books : Books n d) (put : FOutstandingPut α) : Books (n + 1) (d.add put) := by
  refine ⟨congrArg (· + 1) books.putCounter, ?_⟩
  have made := books.putsMade
  rw [List.perm_iff_count] at made ⊢
  intro index
  have count := made index
  have next : 1 + 1 * n = n + 1 := by omega
  rw [List.range'_concat, next]
  simp only [Delivery.putsMade, Delivery.add, Delivery.indexes, books.putCounter,
    List.map_append, List.map_cons, List.map_nil, List.count_append, List.count_cons,
    List.count_nil] at count ⊢
  omega

theorem close (books : Books n d) : Books n d.close := by
  refine ⟨books.putCounter, .trans ?_ books.putsMade⟩
  have parts := (List.filter_append_perm isSentTransaction d.outstandingPuts).map Prod.fst
  have completed : ((d.outstandingPuts.filter isSentTransaction).map cancelled).filterMap
      FOutput.completedPut = (d.outstandingPuts.filter isSentTransaction).map Prod.fst := by
    rw [List.filterMap_map]
    exact congrFun List.filterMap_eq_map _
  rw [List.map_append, List.perm_iff_count] at parts
  rw [List.perm_iff_count]
  intro index
  have counts := parts index
  simp only [Delivery.putsMade, Delivery.close, Delivery.indexes, List.filterMap_append, completed,
    List.count_append] at counts ⊢
  omega

theorem move (books : Books n d) (move : Move ordered d d') : Books n d' := by
  cases move with
  | report plain => exact books.report fun output member => (plain output member).noPut
  | request _ _ _ => exact books.send _ _ _
  | @listen number listenSpec _ =>
    exact (books.send number _ (some (.listen listenSpec))).congr rfl rfl rfl rfl
  | authenticate _ =>
    have entered (phase : ConnectionPhase) : Books n (d.enter phase) := books.congr rfl rfl rfl rfl
    exact (entered _).send _ _ _
  | resend _ => exact (books.sendPut _ _).congr rfl rfl rfl rfl
  | hearListen _ =>
    have heard (rn : Nat) : Books n (d.hear rn) := books.congr rfl rfl rfl rfl
    exact (heard _).unack
  | hearPut _ held =>
    have heard (rn : Nat) : Books n (d.hear rn) := books.congr rfl rfl rfl rfl
    exact (heard _).settle held
  | purge => exact books.purge
  | _ => exact books.congr rfl rfl rfl rfl

theorem step {mistakes : List String} {isPut : Bool} (books : Books n d)
    (step : Step ordered d mistakes isPut d') : Books (n + if isPut then 1 else 0) d' := by
  cases step with
  | moves moved =>
    have accused : Books n (d.accuse mistakes) :=
      books.report (List.forall_mem_map.mpr fun _ _ => rfl)
    exact moved.induction move accused
  | keep _ _ => exact books.add _
  | deliver _ _ => exact (books.add _).sendPut _ _
  | close _ => exact books.close

end Books

/-! ## Puts that are put aside -/

/-- Puts are put aside only while a listen waits for an answer. -/
def Aside (d : Delivery α) : Prop :=
  d.putsToAck = [] ∨ 0 < d.requestCBHash.countP (·.2.isListen)

namespace Aside

theorem mono (aside : d.Aside) (putsToAck : d'.putsToAck = d.putsToAck)
    (listens : d.requestCBHash.countP (·.2.isListen) ≤ d'.requestCBHash.countP (·.2.isListen)) :
    d'.Aside :=
  aside.imp putsToAck.trans fun waits => Nat.lt_of_lt_of_le waits listens

theorem send (aside : d.Aside) (number : Nat) (request : FRequest α)
    (onMessage : Option FCallback) : (d.send number request onMessage).Aside := by
  refine aside.mono rfl ?_
  rw [Delivery.send, List.countP_append]
  exact Nat.le_add_right _ _

theorem sendPut (aside : d.Aside) (number index : Nat) : (d.sendPut number index).Aside := by
  unfold Delivery.sendPut
  split
  · exact aside
  · have marked : Aside { d with outstandingPuts := markSent d.outstandingPuts index } := aside
    exact marked.send number _ _

/-- The count is not zero while a listen waits, and only then puts are put aside. -/
theorem of_unacked (awaiting : d.Awaiting) (waits : d.unackedListensCount ≠ 0) : d.Aside := by
  refine .inr (Nat.pos_of_ne_zero fun none => waits ?_)
  rw [awaiting.unacked, none]
  rfl

theorem hear (aside : d.Aside) (awaiting : d.Awaiting) {rn : Nat} {callback : FCallback}
    (found : d.requestCBHash.lookup rn = some callback) (noListen : callback.isListen = false) :
    (d.hear rn).Aside := by
  refine aside.mono rfl ?_
  rw [(perm_of_lookup awaiting.nodup found).countP_eq, List.countP_cons_of_neg (by simp [noListen])]
  exact Nat.le_refl _

theorem hearListen (awaiting : d.Awaiting) {rn : Nat} {listenSpec : FOutstandingQuery}
    (found : d.requestCBHash.lookup rn = some (.listen listenSpec)) : (d.hear rn).unack.Aside := by
  have heard := awaiting.hear_unacked found
  unfold unack
  dsimp only
  split
  · exact .inl rfl
  next waits => exact of_unacked heard waits

theorem settle (aside : d.Aside) (awaiting : d.Awaiting) (put : FTupleCallbackStatus) :
    (d.settle put).Aside := by
  have settled := awaiting.settle put
  unfold Delivery.settle at settled ⊢
  dsimp only at settled ⊢
  split
  · exact aside
  next waits =>
    rw [if_neg waits] at settled
    exact of_unacked settled waits

theorem move (aside : d.Aside) (awaiting : d.Awaiting) (move : Move ordered d d') : d'.Aside := by
  cases move with
  | request _ _ _ => exact aside.send _ _ _
  | @listen number listenSpec _ =>
    exact (aside.send number (.listen listenSpec.query listenSpec.tagId)
      (some (.listen listenSpec))).mono rfl (Nat.le_refl _)
  | authenticate _ =>
    have entered (phase : ConnectionPhase) : (d.enter phase).Aside := aside
    exact (entered _).send _ _ _
  | permit _ hears => exact aside.hear awaiting hears.found rfl
  | renew _ hears => exact aside.hear awaiting hears.found rfl
  | resend _ => exact aside.sendPut _ _
  | hear hears noListen _ _ => exact aside.hear awaiting hears.found noListen
  | hearListen hears => exact hearListen awaiting hears.found
  | hearPut hears _ =>
    exact (aside.hear awaiting hears.found rfl).settle (awaiting.hear hears.found rfl) _
  | purge => exact .inl rfl
  | _ => exact aside

/-- The puts are still put aside when a connection ends, but no listen waits any more. -/
theorem step {mistakes : List String} {isPut : Bool} (aside : d.Aside) (awaiting : d.Awaiting)
    (step : Step ordered d mistakes isPut d') :
    d'.Aside ∨ d.putsToAck ≠ [] ∧ d.phase.realtime ≠ none ∧ d'.phase.realtime = none := by
  cases step with
  | moves moved =>
    have both := moved.induction (P := fun d => d.Aside ∧ d.Awaiting)
      (fun both moved => ⟨both.1.move both.2 moved, both.2.move moved⟩)
      ⟨aside, awaiting.congr rfl rfl rfl⟩
    exact .inl both.1
  | keep _ _ => exact .inl aside
  | deliver _ _ =>
    have added (put : FOutstandingPut α) : (d.add put).Aside := aside
    exact .inl ((added _).sendPut _ _)
  | close up =>
    by_cases none : d.putsToAck = []
    · exact .inl (.inl none)
    · exact .inr ⟨none, up, rfl⟩

end Aside

/-! ## What is reported of them -/

/-- Those that were put aside still are, or all of them have been reported. -/
def Reports (d d' : Delivery α) : Prop :=
  d.putsToAck <+: d'.putsToAck ∨
    ∃ before after, d'.log = d.log ++ before ++ d.putsToAck.map acked ++ after

theorem Move.reports (move : Move ordered d d') :
    d.putsToAck <+: d'.putsToAck ∨ ∃ after, d'.log = d.log ++ d.putsToAck.map acked ++ after := by
  cases move with
  | resend _ =>
    unfold sendPut
    split
    · exact .inl List.prefix_rfl
    · exact .inl List.prefix_rfl
  | hearListen _ =>
    unfold unack
    dsimp only
    split
    · exact .inr ⟨[], (List.append_nil _).symm⟩
    · exact .inl List.prefix_rfl
  | hearPut _ _ =>
    unfold settle
    dsimp only
    split
    · exact .inl List.prefix_rfl
    · exact .inl (List.prefix_append _ _)
  | purge => exact .inr ⟨_, rfl⟩
  | _ => exact .inl List.prefix_rfl

theorem Moves.reports (moved : Moves ordered d d') : d.Reports d' := by
  induction moved with
  | refl => exact .inl List.prefix_rfl
  | tail moved move ih =>
    obtain ⟨earlier, log, -⟩ := Grows.moves moved
    obtain ⟨outputs, log', -⟩ := Grows.move move
    rcases ih with kept | ⟨before, after, reported⟩
    · rcases move.reports with still | ⟨after, reported⟩
      · exact .inl (kept.trans still)
      · obtain ⟨more, aside⟩ := kept
        refine .inr ⟨earlier, more.map acked ++ after, ?_⟩
        rw [reported, log, ← aside, List.map_append]
        simp only [List.append_assoc]
    · refine .inr ⟨before, after ++ outputs, ?_⟩
      rw [log', reported, List.append_assoc]

theorem Step.reports {mistakes : List String} {isPut : Bool}
    (step : Step ordered d mistakes isPut d') : d.Reports d' := by
  cases step with
  | moves moved =>
    rcases moved.reports with kept | ⟨before, after, reported⟩
    · exact .inl kept
    · refine .inr ⟨mistakes.map .assertionFailed ++ before, after, ?_⟩
      rw [reported, ← List.append_assoc]
      rfl
  | keep _ _ => exact .inl List.prefix_rfl
  | deliver _ _ =>
    unfold sendPut
    split
    · exact .inl List.prefix_rfl
    · exact .inl List.prefix_rfl
  | close _ => exact .inl List.prefix_rfl

end Delivery

namespace FPersistentConnection

open Delivery (Books Aside)

/-- Outstanding, put aside, and reported. -/
def putsMade (s : FPersistentConnection α) : List Nat :=
  s.outstandingPuts.map Prod.fst ++ s.putsToAck.map FTupleCallbackStatus.index ++
    s.log.filterMap FOutput.completedPut

/-- A connection was lost while answered puts were put aside. -/
def LostAside (events : List (Event α)) : Prop :=
  ∃ earlier event later, events = earlier ++ event :: later ∧
    (run init earlier).putsToAck ≠ [] ∧ (run init earlier).realtime ≠ none ∧
    (run init (earlier ++ [event])).realtime = none

theorem LostAside.concat {events : List (Event α)} (lost : LostAside events) (event : Event α) :
    LostAside (events ++ [event]) := by
  obtain ⟨earlier, last, later, rfl, rest⟩ := lost
  exact ⟨earlier, last, later ++ [event], by simp, rest⟩

theorem aside_run (events : List (Event α)) :
    (run init events).putsToAck = [] ∨ 0 < (run init events).unackedListens ∨
      LostAside events := by
  obtain ⟨phase, -, -, -, aside⟩ := @run_induction _ False
    (fun events d => d.Awaiting ∧ (d.Aside ∨ LostAside events))
    ⟨.of_idle rfl rfl, .inl (.inl rfl)⟩
    (by
      rintro events event phase phase' stands stands' ⟨awaiting, aside⟩ step
      refine ⟨awaiting.step step, ?_⟩
      rcases aside with aside | lost
      · refine (aside.step awaiting step).imp_right ?_
        rintro ⟨held, up, down⟩
        refine ⟨events, event, [], rfl, held, ?_, stands'.realtime.trans down⟩
        rw [stands.realtime]
        exact up
      · exact .inr (lost.concat event))
    events False.elim
  exact or_assoc.mp aside

-- A put answered before a listen is held back, also when the connection is lost and nothing is
-- listened to any more: it is reported after the next answer to a listen.
example :
    (run init [.resume "waiting_for_open", .fetchToken, .tokenFetched 1 (.ok none), .handshake,
      .listen (.defaultQueryAtPath "/users") none, .put "p" "/users/ann" 0 none,
      .response 3 "ok" none, .unlisten (.defaultQueryAtPath "/users") none, .close] :
        FPersistentConnection Nat).putsToAck.map FTupleCallbackStatus.index = [1] := by
  decide

end FPersistentConnection

end GAMember
