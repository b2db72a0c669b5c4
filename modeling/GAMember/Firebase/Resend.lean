import GAMember.Firebase.Puts

/-!
# The order in which puts are sent

On a new connection the outstanding puts are sent again. If the server answers in the order
of the requests, the puts go over each connection in the order in which they were made and
none goes over it twice; and while the client may write, each outstanding put has been sent
and its answer is waited for.

What holds of a delivery depends on its phase (`Kept`): nothing is sent before the first
credential is answered, and then the puts that are still to be sent are later ones than
those that were.
-/

namespace GAMember

variable {α : Type}

/-- The put that is sent over the connection. -/
def FOutput.putSentOn (connection : Nat) : FOutput α → Option Nat
  | .sent number _ (.put index _ _ _ _) => if number = connection then some index else none
  | _ => none

def putsSent (log : List (FOutput α)) (connection : Nat) : List Nat :=
  log.filterMap (FOutput.putSentOn connection)

/-- The connections made so far have sent puts made so far, in order. -/
structure Steady (log : List (FOutput α)) (putCounter connections : Nat) : Prop where
  pairwise : ∀ connection, (putsSent log connection).Pairwise (· < ·)
  lt : ∀ connection, ∀ index ∈ putsSent log connection, index < putCounter
  unmade : ∀ connection, connections ≤ connection → putsSent log connection = []

/-- The first credential is to be answered, before any later one. -/
def AwaitsAuth (requestCBHash : List (Nat × FCallback)) : Prop :=
  ∃ earlier rn later, requestCBHash = earlier ++ (rn, .auth true) :: later ∧
    (∀ entry ∈ earlier, ∀ restore, entry.2 ≠ .auth restore) ∧ ∀ entry ∈ later, entry.2 ≠ .auth true

/-- The put is sent and its answer waited for. -/
def AwaitsAnswer (sent : List Nat) (requestCBHash : List (Nat × FCallback)) (index : Nat) : Prop :=
  index ∈ sent ∧ ∃ rn, (rn, .put index) ∈ requestCBHash

theorem putsSent_append (log outputs : List (FOutput α)) (connection : Nat) :
    putsSent (log ++ outputs) connection = putsSent log connection ++ putsSent outputs connection :=
  List.filterMap_append

theorem putsSent_of_others {outputs : List (FOutput α)}
    (others : ∀ output ∈ outputs, output.isPutSent = false) (connection : Nat) :
    putsSent outputs connection = [] := by
  rw [putsSent, List.filterMap_eq_nil_iff]
  intro output member
  have other := others output member
  cases output with
  | sent number rn request =>
    cases request with
    | put index action pathString data hash => simp [FOutput.isPutSent] at other
    | _ => rfl
  | _ => rfl

theorem putsSent_append_of_others (log : List (FOutput α)) {outputs : List (FOutput α)}
    (others : ∀ output ∈ outputs, output.isPutSent = false) (connection : Nat) :
    putsSent (log ++ outputs) connection = putsSent log connection := by
  rw [putsSent_append, putsSent_of_others others, List.append_nil]

theorem putsSent_concat_of_other (log : List (FOutput α)) {output : FOutput α}
    (other : output.isPutSent = false) (connection : Nat) :
    putsSent (log ++ [output]) connection = putsSent log connection := by
  refine putsSent_append_of_others log ?_ connection
  intro last member
  rw [List.mem_singleton.mp member]
  exact other

namespace Steady

variable {log log' : List (FOutput α)} {putCounter connections : Nat}

theorem congr (steady : Steady log putCounter connections)
    (sent : ∀ connection, putsSent log' connection = putsSent log connection) :
    Steady log' putCounter connections := by
  refine ⟨?_, ?_, ?_⟩
  · intro connection
    rw [sent]
    exact steady.pairwise connection
  · intro connection
    rw [sent]
    exact steady.lt connection
  · intro connection
    rw [sent]
    exact steady.unmade connection

theorem mono (steady : Steady log putCounter connections) {putCounter' connections' : Nat}
    (puts : putCounter ≤ putCounter') (made : connections ≤ connections') :
    Steady log putCounter' connections' :=
  ⟨steady.pairwise,
    fun connection index member => Nat.lt_of_lt_of_le (steady.lt connection index member) puts,
    fun connection unmade => steady.unmade connection (Nat.le_trans made unmade)⟩

/-- A put later than those that its connection has sent. -/
theorem sent (steady : Steady log putCounter connections) {number index : Nat} (rn : Nat)
    (action pathString : String) (data : α) (hash : Option String)
    (later : ∀ earlier ∈ putsSent log number, earlier < index) (made : index < putCounter)
    (open' : number < connections) :
    Steady (log ++ [.sent number rn (.put index action pathString data hash)]) putCounter
      connections := by
  have cases (connection : Nat) :
      putsSent (log ++ [.sent number rn (.put index action pathString data hash)]) connection =
        putsSent log connection ++ if number = connection then [index] else [] := by
    rw [putsSent_append]
    congr 1
    by_cases same : number = connection
    · simp [putsSent, FOutput.putSentOn, same]
    · simp [putsSent, FOutput.putSentOn, same]
  refine ⟨?_, ?_, ?_⟩
  · intro connection
    rw [cases]
    split
    next same =>
      subst same
      rw [List.pairwise_append]
      refine ⟨steady.pairwise number, List.pairwise_singleton _ _, ?_⟩
      intro earlier member other last
      rw [List.mem_singleton.mp last]
      exact later earlier member
    next =>
      rw [List.append_nil]
      exact steady.pairwise connection
  · intro connection other member
    rw [cases, List.mem_append] at member
    rcases member with earlier | last
    · exact steady.lt connection other earlier
    · split at last
      · rw [List.mem_singleton.mp last]
        exact made
      · contradiction
  · intro connection unmade
    rw [cases, steady.unmade connection unmade, if_neg (by omega), List.append_nil]

end Steady

namespace Delivery

open FPersistentConnection (markSent sortedKeys isSentTransaction cancelled acked)

variable {ordered : Prop} {d d' : Delivery α} {number : Nat}

/-- Of the outstanding puts, the ones listed are still to be sent over the connection. -/
structure Restoring (number : Nat) (puts : List Nat) (d : Delivery α) : Prop where
  noAuth : ∀ entry ∈ d.requestCBHash, entry.2 ≠ .auth true
  pairwise : puts.Pairwise (· < ·)
  lt : ∀ index ∈ puts, index < d.putCounter
  later : ∀ earlier ∈ putsSent d.log number, ∀ index ∈ puts, earlier < index
  awaits : ∀ index ∈ d.indexes,
    index ∈ puts ∨ AwaitsAnswer (putsSent d.log number) d.requestCBHash index

/-- What has been sent over the connection in a phase. -/
def Kept (d : Delivery α) : ConnectionPhase → Prop
  | .disconnected => True
  | .gettingToken => True
  | .connecting number =>
      putsSent d.log number = [] ∧ ∀ entry ∈ d.requestCBHash, ∀ restore, entry.2 ≠ .auth restore
  | .ready number =>
      putsSent d.log number = [] ∧ ∀ entry ∈ d.requestCBHash, ∀ restore, entry.2 ≠ .auth restore
  | .authenticating number => putsSent d.log number = [] ∧ AwaitsAuth d.requestCBHash
  | .restoring number puts => d.Restoring number puts
  | .connected number => d.Restoring number []

structure Order (d : Delivery α) : Prop where
  steady : Steady d.log d.putCounter d.connections
  made : ∀ realtime, d.phase.realtime = some realtime → realtime.number < d.connections
  kept : d.Kept d.phase

/-! ## Nothing is sent -/

/-- The same requests wait for an answer, and no put is made or sent. -/
theorem Kept.congr {phase : ConnectionPhase} (kept : d.Kept phase)
    (sent : ∀ number, putsSent d'.log number = putsSent d.log number)
    (hash : d'.requestCBHash = d.requestCBHash) (putCounter : d'.putCounter = d.putCounter)
    (puts : ∀ index ∈ d'.indexes, index ∈ d.indexes) : d'.Kept phase := by
  have restoring {number : Nat} {rest : List Nat} (kept : d.Restoring number rest) :
      d'.Restoring number rest := by
    refine ⟨?_, kept.pairwise, ?_, ?_, ?_⟩
    · rw [hash]
      exact kept.noAuth
    · rw [putCounter]
      exact kept.lt
    · rw [sent]
      exact kept.later
    · rw [sent, hash]
      exact fun index member => kept.awaits index (puts index member)
  cases phase with
  | disconnected => trivial
  | gettingToken => trivial
  | connecting number => exact ⟨(sent number).trans kept.1, by rw [hash]; exact kept.2⟩
  | ready number => exact ⟨(sent number).trans kept.1, by rw [hash]; exact kept.2⟩
  | authenticating number => exact ⟨(sent number).trans kept.1, by rw [hash]; exact kept.2⟩
  | restoring number puts => exact restoring kept
  | connected number => exact restoring kept

theorem Order.congr (order : d.Order) (phase : d'.phase = d.phase)
    (connections : d'.connections = d.connections)
    (sent : ∀ number, putsSent d'.log number = putsSent d.log number)
    (hash : d'.requestCBHash = d.requestCBHash) (putCounter : d'.putCounter = d.putCounter)
    (puts : ∀ index ∈ d'.indexes, index ∈ d.indexes) : d'.Order := by
  refine ⟨?_, ?_, ?_⟩
  · rw [putCounter, connections]
    exact order.steady.congr sent
  · rw [phase, connections]
    exact order.made
  · rw [phase]
    exact order.kept.congr sent hash putCounter puts

theorem Order.report (order : d.Order) {outputs : List (FOutput α)}
    (others : ∀ output ∈ outputs, output.isPutSent = false) : (d.report outputs).Order :=
  order.congr rfl rfl (putsSent_append_of_others d.log others) rfl rfl fun _ member => member

theorem Order.ack (order : d.Order) : d.ack.Order := by
  have others : ∀ output ∈ d.putsToAck.map (acked (α := α)), output.isPutSent = false :=
    List.forall_mem_map.mpr fun _ _ => rfl
  exact order.congr rfl rfl (putsSent_append_of_others d.log others) rfl rfl fun _ member => member

theorem Order.unack (order : d.Order) : d.unack.Order := by
  have counted : Order { d with unackedListensCount := d.unackedListensCount - 1 } :=
    ⟨order.steady, order.made, order.kept.congr (fun _ => rfl) rfl rfl fun _ member => member⟩
  unfold Delivery.unack
  dsimp only
  split
  · exact counted.ack
  · exact counted

/-! ## An answer is heard -/

/-- What waits for another answer still waits. -/
theorem mem_hear {hash : List (Nat × FCallback)} (nodup : (hash.map Prod.fst).Nodup) {rn : Nat}
    {callback : FCallback} (found : hash.lookup rn = some callback) {entry : Nat × FCallback}
    (member : entry ∈ hash) (other : entry.2 ≠ callback) :
    entry ∈ hash.filter fun entry => entry.1 ≠ rn := by
  rcases List.mem_cons.mp ((perm_of_lookup nodup found).mem_iff.mp member) with same | rest
  · rw [same] at other
    contradiction
  · exact rest

theorem AwaitsAuth.hear {hash : List (Nat × FCallback)} (awaits : AwaitsAuth hash)
    (nodup : (hash.map Prod.fst).Nodup) {rn : Nat} {callback : FCallback}
    (found : hash.lookup rn = some callback) (other : callback ≠ .auth true) :
    AwaitsAuth (hash.filter fun entry => entry.1 ≠ rn) := by
  obtain ⟨earlier, key, later, parts, before, after⟩ := awaits
  have waiting : (key, .auth true) ∈ hash := by simp [parts]
  have distinct : key ≠ rn := by
    simpa using (List.mem_filter.mp (mem_hear nodup found waiting other.symm)).2
  refine ⟨earlier.filter (fun entry => entry.1 ≠ rn), key,
    later.filter (fun entry => entry.1 ≠ rn), ?_, ?_, ?_⟩
  · rw [parts, List.filter_append, List.filter_cons_of_pos (by simpa using distinct)]
  · exact fun entry member => before entry (List.mem_of_mem_filter member)
  · exact fun entry member => after entry (List.mem_of_mem_filter member)

/-- After the answer to the first credential, none to it is waited for. -/
theorem AwaitsAuth.noAuth {hash : List (Nat × FCallback)} (awaits : AwaitsAuth hash) {rn : Nat}
    (found : hash.lookup rn = some (.auth true)) :
    ∀ entry ∈ hash.filter fun entry => entry.1 ≠ rn, entry.2 ≠ .auth true := by
  obtain ⟨earlier, key, later, parts, before, after⟩ := awaits
  have only {other : Nat × FCallback} (member : other ∈ hash) (auth : other.2 = .auth true) :
      other = (key, .auth true) := by
    rw [parts, List.mem_append, List.mem_cons] at member
    rcases member with first | same | last
    · exact absurd auth (before other first true)
    · exact same
    · exact absurd auth (after other last)
  obtain ⟨_, _, split, -⟩ := List.lookup_eq_some_iff.mp found
  have heard : ((rn, .auth true) : Nat × FCallback) = (key, .auth true) :=
    only (by simp [split]) rfl
  intro entry member auth
  obtain ⟨waiting, distinct⟩ := List.mem_filter.mp member
  rw [only waiting auth, ← heard] at distinct
  simp at distinct

/-- A later credential is not answered first. -/
theorem AwaitsAuth.first {hash : List (Nat × FCallback)} (awaits : AwaitsAuth hash)
    {head : Nat × FCallback} {rest : List (Nat × FCallback)} (first : hash = head :: rest) :
    head.2 ≠ .auth false := by
  obtain ⟨earlier, key, later, parts, before, after⟩ := awaits
  cases earlier with
  | nil =>
    rw [first, List.nil_append, List.cons.injEq] at parts
    rw [parts.1]
    simp
  | cons entry earlier =>
    rw [first, List.cons_append, List.cons.injEq] at parts
    rw [parts.1]
    exact before entry List.mem_cons_self false

theorem Restoring.hear {puts : List Nat} (restoring : d.Restoring number puts)
    (awaiting : d.Awaiting) {rn : Nat} {callback : FCallback}
    (found : d.requestCBHash.lookup rn = some callback)
    (settled : ∀ index ∈ d.indexes, callback ≠ .put index) :
    (d.hear rn).Restoring number puts := by
  refine ⟨?_, restoring.pairwise, restoring.lt, restoring.later, ?_⟩
  · exact fun entry member => restoring.noAuth entry (List.mem_of_mem_filter member)
  · intro index member
    refine (restoring.awaits index member).imp_right ?_
    rintro ⟨sent, key, waiting⟩
    exact ⟨sent, key, mem_hear awaiting.nodup found waiting (settled index member).symm⟩

theorem Kept.hear {phase : ConnectionPhase} (kept : d.Kept phase) (awaiting : d.Awaiting) {rn : Nat}
    {callback : FCallback} (found : d.requestCBHash.lookup rn = some callback)
    (noAuth : callback ≠ .auth true) (settled : ∀ index ∈ d.indexes, callback ≠ .put index) :
    (d.hear rn).Kept phase := by
  cases phase with
  | disconnected => trivial
  | gettingToken => trivial
  | connecting number =>
    exact ⟨kept.1, fun entry member => kept.2 entry (List.mem_of_mem_filter member)⟩
  | ready number =>
    exact ⟨kept.1, fun entry member => kept.2 entry (List.mem_of_mem_filter member)⟩
  | authenticating number => exact ⟨kept.1, AwaitsAuth.hear kept.2 awaiting.nodup found noAuth⟩
  | restoring number puts => exact Restoring.hear kept awaiting found settled
  | connected number => exact Restoring.hear kept awaiting found settled

theorem Order.hear (order : d.Order) (awaiting : d.Awaiting) {rn : Nat} {callback : FCallback}
    (found : d.requestCBHash.lookup rn = some callback) (noAuth : callback ≠ .auth true)
    (settled : ∀ index ∈ d.indexes, callback ≠ .put index) : (d.hear rn).Order :=
  ⟨order.steady, order.made, order.kept.hear awaiting found noAuth settled⟩

/-- A put that is answered is outstanding no longer. -/
theorem Order.hearPut (order : d.Order) (awaiting : d.Awaiting) {rn : Nat}
    {put : FTupleCallbackStatus} (found : d.requestCBHash.lookup rn = some (.put put.index)) :
    ((d.hear rn).settle put).Order := by
  have removed : Order { d with
      outstandingPuts := d.outstandingPuts.filter fun entry => entry.1 ≠ put.index } := by
    refine order.congr rfl rfl (fun _ => rfl) rfl rfl ?_
    exact fun index member => (List.filter_sublist.map Prod.fst).subset member
  have heard := removed.hear (awaiting.congr rfl rfl rfl) found (by simp) (by
    intro index member
    obtain ⟨entry, kept, rfl⟩ := List.mem_map.mp member
    have ne := (List.mem_filter.mp kept).2
    intro same
    simp [FCallback.put.inj same] at ne)
  unfold settle
  dsimp only
  split
  · refine heard.report ?_
    intro output member
    rw [List.mem_singleton.mp member]
    rfl
  · exact heard.congr rfl rfl (fun _ => rfl) rfl rfl fun _ member => member

/-! ## Requests that are no puts -/

/-- Not the first credential, and no credential before it. -/
def Late (phase : ConnectionPhase) (callback : FCallback) : Prop :=
  ∀ restore, callback = .auth restore → restore = false ∧ phase.isSettled = true

theorem late_of_fits {phase : ConnectionPhase} {callback : FCallback} (fits : callback.Fits phase) :
    Late phase callback := by
  rintro restore rfl
  exact fits

theorem Late.noAuth {phase : ConnectionPhase} {callback : FCallback} (late : Late phase callback) :
    callback ≠ .auth true := by
  rintro rfl
  have := (late true rfl).1
  contradiction

theorem isPutSent_sent {request : FRequest α} (noPut : request.isPut = false) (number rn : Nat) :
    FOutput.isPutSent (.sent number rn request) = false := by
  cases request with
  | put index action pathString data hash => contradiction
  | _ => rfl

theorem AwaitsAuth.append {hash more : List (Nat × FCallback)} (awaits : AwaitsAuth hash)
    (late : ∀ entry ∈ more, entry.2 ≠ .auth true) : AwaitsAuth (hash ++ more) := by
  obtain ⟨earlier, key, later, parts, before, after⟩ := awaits
  refine ⟨earlier, key, later ++ more, by simp [parts], before, ?_⟩
  intro entry member
  rcases List.mem_append.mp member with held | new
  · exact after entry held
  · exact late entry new

theorem AwaitsAnswer.mono {sent more : List Nat} {hash waiting : List (Nat × FCallback)}
    {index : Nat} (awaits : AwaitsAnswer sent hash index) :
    AwaitsAnswer (sent ++ more) (hash ++ waiting) index := by
  obtain ⟨done, rn, held⟩ := awaits
  exact ⟨List.mem_append_left _ done, rn, List.mem_append_left _ held⟩

theorem Kept.send {phase : ConnectionPhase} (kept : d.Kept phase)
    (up : phase.realtime = some ⟨number, true⟩) {request : FRequest α}
    (noPut : request.isPut = false) {onMessage : Option FCallback}
    (late : ∀ callback ∈ onMessage, Late phase callback) :
    (d.send number request onMessage).Kept phase := by
  have sent : ∀ connection, putsSent (d.send number request onMessage).log connection =
      putsSent d.log connection :=
    putsSent_concat_of_other d.log (isPutSent_sent noPut number d.requestNumber)
  have new : ∀ entry ∈ onMessage.toList.map fun callback => (d.requestNumber, callback),
      Late phase entry.2 := by
    exact List.forall_mem_map.mpr fun callback member => late callback (Option.mem_toList.mp member)
  have restoring {connection : Nat} {puts : List Nat} (kept : d.Restoring connection puts) :
      (d.send number request onMessage).Restoring connection puts := by
    refine ⟨?_, kept.pairwise, kept.lt, ?_, ?_⟩
    · intro entry member
      rcases List.mem_append.mp member with held | added
      · exact kept.noAuth entry held
      · exact (new entry added).noAuth
    · rw [sent]
      exact kept.later
    · intro index member
      rw [sent, ← List.append_nil (putsSent d.log connection)]
      exact (kept.awaits index member).imp_right AwaitsAnswer.mono
  cases phase with
  | disconnected => trivial
  | gettingToken => trivial
  | connecting number => simp [ConnectionPhase.realtime] at up
  | ready connection =>
    refine ⟨(sent connection).trans kept.1, fun entry member restore auth => ?_⟩
    rcases List.mem_append.mp member with held | added
    · exact kept.2 entry held restore auth
    · have settled := (new entry added restore auth).2
      contradiction
  | authenticating connection =>
    exact ⟨(sent connection).trans kept.1,
      AwaitsAuth.append kept.2 fun entry added => (new entry added).noAuth⟩
  | restoring connection puts => exact restoring kept
  | connected connection => exact restoring kept

theorem Order.send (order : d.Order) (up : d.phase.realtime = some ⟨number, true⟩)
    {request : FRequest α} (noPut : request.isPut = false) {onMessage : Option FCallback}
    (late : ∀ callback ∈ onMessage, Late d.phase callback) :
    (d.send number request onMessage).Order :=
  ⟨order.steady.congr (putsSent_concat_of_other d.log (isPutSent_sent noPut _ _)), order.made,
    order.kept.send up noPut late⟩

/-! ## Puts -/

theorem putsSent_sendPut {index : Nat} {put : FOutstandingPut α}
    (held : d.outstandingPuts.lookup index = some put) (number connection : Nat) :
    putsSent (d.sendPut number index).log connection =
      putsSent d.log connection ++ if number = connection then [index] else [] := by
  rw [sendPut_of_some held, putsSent_append]
  congr 1
  by_cases same : number = connection
  · simp [putsSent, FOutput.putSentOn, same]
  · simp [putsSent, FOutput.putSentOn, same]

/-- The next of the puts that are still to be sent is sent, or outstanding no longer. -/
theorem Restoring.sendPut {index : Nat} {puts : List Nat}
    (restoring : d.Restoring number (index :: puts)) :
    (d.sendPut number index).Restoring number puts := by
  have first := List.pairwise_cons.mp restoring.pairwise
  cases held : d.outstandingPuts.lookup index with
  | none =>
    rw [sendPut_of_none held]
    refine ⟨restoring.noAuth, first.2, ?_, ?_, ?_⟩
    · exact fun other member => restoring.lt other (List.mem_cons_of_mem index member)
    · intro earlier before other member
      exact restoring.later earlier before other (List.mem_cons_of_mem index member)
    · intro other member
      rcases restoring.awaits other member with rest | awaits
      · rcases List.mem_cons.mp rest with rfl | rest
        · obtain ⟨entry, there, rfl⟩ := List.mem_map.mp member
          exact absurd (List.lookup_eq_none_iff.mp held entry there) (by simp)
        · exact .inl rest
      · exact .inr awaits
  | some put =>
    have sent := putsSent_sendPut held number number
    rw [if_pos rfl] at sent
    have indexes := indexes_sendPut d number index
    rw [sendPut_of_some held] at sent indexes ⊢
    refine ⟨?_, first.2, ?_, ?_, ?_⟩
    · intro entry member
      rcases List.mem_append.mp member with before | new
      · exact restoring.noAuth entry before
      · rw [List.mem_singleton.mp new]
        simp
    · exact fun other member => restoring.lt other (List.mem_cons_of_mem index member)
    · intro earlier done other member
      rw [sent] at done
      rcases List.mem_append.mp done with before | last
      · exact restoring.later earlier before other (List.mem_cons_of_mem index member)
      · rw [List.mem_singleton.mp last]
        exact first.1 other member
    · intro other member
      rw [indexes] at member
      rw [sent]
      rcases restoring.awaits other member with rest | awaits
      · rcases List.mem_cons.mp rest with rfl | rest
        · exact .inr ⟨List.mem_append_right _ (List.mem_singleton_self _), d.requestNumber,
            List.mem_append_right _ (List.mem_singleton_self _)⟩
        · exact .inl rest
      · exact .inr (AwaitsAnswer.mono awaits)

theorem Restoring.steady {index : Nat} {puts : List Nat}
    (restoring : d.Restoring number (index :: puts))
    (steady : Steady d.log d.putCounter d.connections) (made : number < d.connections) :
    Steady (d.sendPut number index).log (d.sendPut number index).putCounter
      (d.sendPut number index).connections := by
  cases held : d.outstandingPuts.lookup index with
  | none =>
    rw [sendPut_of_none held]
    exact steady
  | some put =>
    rw [sendPut_of_some held]
    refine steady.sent _ _ _ _ _ ?_ (restoring.lt index List.mem_cons_self) made
    exact fun earlier before => restoring.later earlier before index List.mem_cons_self

theorem phase_sendPut (d : Delivery α) (number index : Nat) :
    (d.sendPut number index).phase = d.phase := by
  unfold sendPut
  split
  · rfl
  · rfl

theorem connections_sendPut (d : Delivery α) (number index : Nat) :
    (d.sendPut number index).connections = d.connections := by
  unfold sendPut
  split
  · rfl
  · rfl

theorem pairwise_lt_sortedKeys {n : Nat} (books : Books n d) :
    (sortedKeys d.outstandingPuts).Pairwise (· < ·) := by
  have sorted := List.pairwise_insertionSort (· ≤ ·) d.indexes
  have distinct := (List.perm_insertionSort (· ≤ ·) d.indexes).nodup_iff.mpr books.nodup
  refine (sorted.and distinct).imp ?_
  rintro a b ⟨le, ne⟩
  exact Nat.lt_of_le_of_ne le ne

/-- Nothing has been sent over the connection and the first credential is answered, or there
is none. -/
theorem restoring_sortedKeys {n : Nat} (books : Books n d) (sent : putsSent d.log number = [])
    (noAuth : ∀ entry ∈ d.requestCBHash, entry.2 ≠ .auth true) :
    d.Restoring number (sortedKeys d.outstandingPuts) := by
  have keys : (sortedKeys d.outstandingPuts).Perm d.indexes := List.perm_insertionSort _ _
  refine ⟨noAuth, pairwise_lt_sortedKeys books, ?_, ?_, ?_⟩
  · exact fun index member => books.lt_putCounter (keys.mem_iff.mp member)
  · intro earlier before
    rw [sent] at before
    contradiction
  · exact fun index member => .inl (keys.mem_iff.mpr member)

/-! ## Moves, steps and runs -/

theorem order_of_up (steady : Steady d.log d.putCounter d.connections)
    (made : number < d.connections) (up : d.phase.realtime = some ⟨number, true⟩)
    (kept : d.Kept d.phase) : d.Order := by
  refine ⟨steady, ?_, kept⟩
  intro realtime same
  rw [up, Option.some.injEq] at same
  rw [← same]
  exact made

theorem realtime_of {phase : ConnectionPhase} (before : d.phase = phase) :
    d.phase.realtime = phase.realtime :=
  congrArg ConnectionPhase.realtime before

/-- The phase changes on the established connection. -/
theorem Order.enter {phase : ConnectionPhase} {established : Bool} (order : d.Order)
    (before : d.phase.realtime = some ⟨number, established⟩)
    (up : phase.realtime = some ⟨number, true⟩) (kept : d.Kept phase) : (d.enter phase).Order :=
  order_of_up order.steady (order.made _ before) up
    (kept.congr (fun _ => rfl) rfl rfl fun _ member => member)

theorem Order.authenticate (order : d.Order) (before : d.phase = .ready number)
    (credential : String) :
    ((d.enter (.authenticating number)).send number (.auth credential)
      (some (.auth true))).Order := by
  have kept := order.kept
  rw [before] at kept
  have other : (.sent number d.requestNumber (.auth credential) : FOutput α).isPutSent = false :=
    rfl
  have sent := putsSent_concat_of_other d.log other
  refine order_of_up (order.steady.congr sent) (order.made _ (realtime_of before)) rfl ?_
  exact ⟨(sent number).trans kept.1, d.requestCBHash, d.requestNumber, [], rfl, kept.2, by simp⟩

theorem Order.trust {n : Nat} (order : d.Order) (books : Books n d)
    (before : d.phase = .ready number) :
    (d.enter (.restoring number (sortedKeys d.outstandingPuts))).Order := by
  have kept := order.kept
  rw [before] at kept
  refine order.enter (realtime_of before) rfl ?_
  exact restoring_sortedKeys books kept.1 fun entry member => kept.2 entry member true

theorem Order.permit {n rn : Nat} (order : d.Order) (books : Books n d)
    (before : d.phase = .authenticating number ∨ d.phase = .connected number)
    (found : d.requestCBHash.lookup rn = some (.auth true)) :
    ((d.hear rn).enter (.restoring number (sortedKeys d.outstandingPuts))).Order := by
  have kept := order.kept
  rcases before with before | before
  · rw [before] at kept
    refine order_of_up order.steady (order.made _ (realtime_of before)) rfl ?_
    have heard : Books n (d.hear rn) := books.congr rfl rfl rfl rfl
    have restoring : (d.hear rn).Kept (.restoring number (sortedKeys d.outstandingPuts)) :=
      restoring_sortedKeys heard kept.1 (AwaitsAuth.noAuth kept.2 found)
    exact restoring.congr (fun _ => rfl) rfl rfl fun _ member => member
  · rw [before] at kept
    obtain ⟨_, _, parts, -⟩ := List.lookup_eq_some_iff.mp found
    exact absurd rfl (kept.noAuth (rn, .auth true) (by simp [parts]))

/-- A later credential is answered: only if the answers are heard out of order, the first one
may still wait for its answer. -/
theorem Order.renew {rn : Nat} (inOrder : ordered) (order : d.Order) (awaiting : d.Awaiting)
    (before : d.phase = .authenticating number ∨ d.phase = .connected number)
    (hears : d.Hears ordered rn (.auth false)) :
    ((d.hear rn).enter (.connected number)).Order := by
  have kept := order.kept
  rcases before with before | before
  · rw [before] at kept
    obtain ⟨later, first⟩ := hears.first inOrder
    exact absurd rfl (AwaitsAuth.first kept.2 first)
  · have heard := order.hear awaiting hears.found (by simp) (by simp)
    have kept' : (d.hear rn).Kept d.phase := heard.kept
    rw [before] at kept'
    exact heard.enter (realtime_of before) rfl kept'

theorem Order.resend {index : Nat} {puts : List Nat} (order : d.Order)
    (before : d.phase = .restoring number (index :: puts)) :
    ((d.sendPut number index).enter (.restoring number puts)).Order := by
  have restoring := order.kept
  rw [before] at restoring
  have made : number < d.connections := order.made _ (realtime_of before)
  refine order_of_up (restoring.steady order.steady made) ?_ rfl ?_
  · exact (connections_sendPut d number index).symm ▸ made
  · have kept : (d.sendPut number index).Kept (.restoring number puts) := restoring.sendPut
    exact kept.congr (fun _ => rfl) rfl rfl fun _ member => member

theorem Order.purge (order : d.Order) : d.purge.Order := by
  have canceled : ∀ output ∈ (sortedKeys d.outstandingPuts).map fun index =>
      (.putCompleted index "write_canceled" none : FOutput α), output.isPutSent = false :=
    List.forall_mem_map.mpr fun _ _ => rfl
  refine (order.ack.report canceled).congr rfl rfl (fun _ => rfl) rfl rfl ?_
  intro index member
  contradiction

theorem Order.move {n : Nat} (inOrder : ordered) (order : d.Order) (awaiting : d.Awaiting)
    (books : Books n d) (move : Move ordered d d') : d'.Order := by
  cases move with
  | report plain => exact order.report fun output member => (plain output member).notSent
  | @wait phase _ after =>
    have kept : d.Kept phase := by
      cases phase with
      | disconnected => trivial
      | gettingToken => trivial
      | _ => contradiction
    refine ⟨order.steady, by simp [Delivery.enter, after], ?_⟩
    exact kept.congr (fun _ => rfl) rfl rfl fun _ member => member
  | «open» before idle =>
    refine ⟨order.steady.mono (Nat.le_refl _) (Nat.le_succ _), ?_, ?_⟩
    · intro connection up
      rw [← Option.some.inj up]
      exact Nat.lt_succ_self _
    · exact ⟨order.steady.unmade _ (Nat.le_refl _), by simp [idle]⟩
  | @establish number before =>
    have kept := order.kept
    rw [before] at kept
    exact order.enter (realtime_of before) rfl kept
  | request up noPut fits =>
    exact order.send up noPut fun callback member => late_of_fits (fits callback member)
  | @listen number listenSpec up =>
    have sent : (d.send number (.listen listenSpec.query listenSpec.tagId)
        (some (.listen listenSpec))).Order := order.send up rfl (by simp [Late])
    exact sent.congr rfl rfl (fun _ => rfl) rfl rfl fun _ member => member
  | authenticate before => exact order.authenticate before _
  | trust before => exact order.trust books before
  | permit before hears => exact order.permit books before hears.found
  | renew before hears => exact order.renew inOrder awaiting before hears
  | resend before => exact order.resend before
  | finish before =>
    have kept := order.kept
    rw [before] at kept
    exact order.enter (realtime_of before) rfl kept
  | hear hears _ noAuth settled => exact order.hear awaiting hears.found noAuth settled
  | hearListen hears => exact (order.hear awaiting hears.found (by simp) (by simp)).unack
  | hearPut hears _ => exact order.hearPut awaiting hears.found
  | purge => exact order.purge

/-- A put is made and waits. -/
theorem Order.add (order : d.Order) (before : d.phase.connectionState ≠ .connected)
    (put : FOutstandingPut α) : (d.add put).Order := by
  refine ⟨order.steady.mono (Nat.le_succ _) (Nat.le_refl _), order.made, ?_⟩
  have kept := order.kept
  change (d.add put).Kept d.phase
  cases phase : d.phase with
  | restoring number puts => simp [phase, ConnectionPhase.connectionState] at before
  | connected number => simp [phase, ConnectionPhase.connectionState] at before
  | _ =>
    rw [phase] at kept
    exact kept

/-- A put is made and sent, after all others. -/
theorem Order.deliver (order : d.Order) (before : d.phase = .connected number)
    (put : FOutstandingPut α) : ((d.add put).sendPut number d.putCounter).Order := by
  have kept := order.kept
  rw [before] at kept
  have made : number < d.connections := order.made _ (realtime_of before)
  have steady : Steady (d.add put).log (d.add put).putCounter (d.add put).connections :=
    order.steady.mono (Nat.le_succ _) (Nat.le_refl _)
  have next : (d.add put).Restoring number [d.putCounter] := by
    refine ⟨kept.noAuth, List.pairwise_singleton _ _, ?_, ?_, ?_⟩
    · intro index member
      rw [List.mem_singleton.mp member]
      exact Nat.lt_succ_self _
    · intro earlier sent index member
      rw [List.mem_singleton.mp member]
      exact order.steady.lt number earlier sent
    · intro index member
      rw [Delivery.indexes, Delivery.add, List.map_append, List.mem_append] at member
      rcases member with old | new
      · rcases kept.awaits index old with none | awaits
        · contradiction
        · exact .inr awaits
      · exact .inl new
  have phase : ((d.add put).sendPut number d.putCounter).phase = .connected number :=
    (phase_sendPut (d.add put) number d.putCounter).trans before
  refine order_of_up (next.steady steady made) ?_ (by rw [phase]; rfl) ?_
  · exact (connections_sendPut (d.add put) number d.putCounter).symm ▸ made
  · rw [phase]
    exact next.sendPut

theorem Order.close (order : d.Order) : d.close.Order := by
  have cancelled : ∀ output ∈ (d.outstandingPuts.filter isSentTransaction).map cancelled,
      FOutput.isPutSent output = false :=
    List.forall_mem_map.mpr fun _ _ => rfl
  exact ⟨order.steady.congr (putsSent_append_of_others d.log cancelled),
    fun realtime up => absurd up (by simp [Delivery.close, ConnectionPhase.realtime]), trivial⟩

theorem Order.step {n : Nat} {mistakes : List String} {isPut : Bool} (inOrder : ordered)
    (order : d.Order) (awaiting : d.Awaiting) (books : Books n d)
    (step : Step ordered d mistakes isPut d') : d'.Order := by
  cases step with
  | moves moved =>
    have failed : ∀ output ∈ mistakes.map (.assertionFailed : String → FOutput α),
        output.isPutSent = false := List.forall_mem_map.mpr fun _ _ => rfl
    have accused : Books n (d.accuse mistakes) :=
      books.report (List.forall_mem_map.mpr fun _ _ => rfl)
    have all := moved.induction (P := fun d => d.Order ∧ d.Awaiting ∧ Books n d)
      (fun ⟨order, awaiting, books⟩ moved =>
        ⟨order.move inOrder awaiting books moved, awaiting.move moved, books.move moved⟩)
      ⟨order.report failed, awaiting.congr rfl rfl rfl, accused⟩
    exact all.1
  | keep _ before => exact order.add before _
  | deliver _ before => exact order.deliver before _
  | close _ => exact order.close

end Delivery

namespace FPersistentConnection

open Delivery (Books Order)

theorem order_init : ((init : FPersistentConnection α).delivery .disconnected).Order := by
  refine ⟨⟨?_, ?_, ?_⟩, by simp [delivery, ConnectionPhase.realtime], trivial⟩
  · intro connection
    exact .nil
  · intro connection index member
    contradiction
  · intro connection _
    rfl

/-- What holds of the order in which puts are sent holds at the end of every run in which the
server answers in order. -/
theorem order_run {events : List (Event α)}
    (ordered : (init : FPersistentConnection α).answersInOrder events) :
    ∃ phase, phase.isSettled = true ∧ (run init events).Stands phase ∧
      ((run init events).delivery phase).Order := by
  obtain ⟨phase, settled, stands, order, -⟩ := @run_induction _ True
    (fun events d => d.Order ∧ d.Awaiting ∧ Books (events.countP Event.isPut) d)
    ⟨order_init, .of_idle rfl rfl, rfl, .refl _⟩
    (by
      rintro events event phase phase' - - ⟨order, awaiting, books⟩ step
      rw [List.countP_append, List.countP_singleton]
      exact ⟨order.step trivial awaiting books step, awaiting.step step, books.step step⟩)
    events fun _ => ordered
  exact ⟨phase, settled, stands, order⟩

/-- A put made before the first connection and one made on it; the connection is closed before
they are answered, and on the next one the first of them is. -/
def redelivery : List (Event Nat) :=
  [.put "p" "/users/ann" 1 none, .resume "waiting_for_open", .fetchToken,
    .tokenFetched 1 (.ok none), .handshake, .put "p" "/users/bob" 2 none, .close, .fetchToken,
    .tokenFetched 2 (.ok none), .handshake, .response 4 "ok" none]

example : putsSent (run init redelivery).log 1 = [1, 2] := by decide

end FPersistentConnection

end GAMember
