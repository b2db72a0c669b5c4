import GAMember.Effects.Prog

/-!
# Programs started by watchers

A supervisor has watchers, and a watcher starts a job for each message it reacts
to, whatever other jobs are going on. Messages come from outside, or from a job
whose effect sends one. A job that ends with an uncaught exception takes all
watchers and all other jobs with it.

`Healthy.run`: where no job can throw or send a message that is
watched, the watchers stay, and every message from outside starts its jobs.
-/

namespace GAMember

/-- The program a watcher starts for a message, if it reacts to it. -/
abbrev Watcher (δ ε α : Type) := δ → Option (Prog ε α Unit)

/-- A program that was started, and what is left of it. -/
structure Job (ε α : Type) where
  program : Prog ε α Unit
  rest : Prog ε α Unit

/-- The watchers that are alive, and all jobs in the order they were started. -/
structure Supervised (δ ε α : Type) where
  watchers : List (Watcher δ ε α)
  jobs : List (Job ε α)

/-- A message from outside, or the answer to the effect that a job stands at. -/
inductive Supervised.Label (δ ε α : Type)
  | message (d : δ)
  | act (i : Nat) (e : ε) (a : α)
  deriving DecidableEq

variable {δ ε α : Type}

/-- The program ended with an uncaught exception. -/
def Prog.crashed : Prog ε α Unit → Bool
  | .thrown => true
  | _ => false

/-- An unfinished job that is cancelled has nothing left to do. -/
def Job.cancelled (job : Job ε α) : Job ε α :=
  if job.rest.finished then job else { job with rest := .ret () }

/-- The programs the watchers start for a message. -/
def startedBy (watchers : List (Watcher δ ε α)) (d : δ) : List (Prog ε α Unit) :=
  watchers.filterMap fun watcher => watcher d

/-- The message from outside in a label. -/
def Supervised.Label.message? : Supervised.Label δ ε α → Option δ
  | .message d => some d
  | .act _ _ _ => none

namespace Supervised

/-- Nothing has been started. -/
def initial (watchers : List (Watcher δ ε α)) : Supervised δ ε α := ⟨watchers, []⟩

/-- Start the jobs of a message. -/
def deliver (s : Supervised δ ε α) (d : δ) : Supervised δ ε α :=
  { s with jobs := s.jobs ++ (startedBy s.watchers d).map fun program => ⟨program, program⟩ }

/-- An uncaught exception aborts everything. -/
def settle (s : Supervised δ ε α) : Supervised δ ε α :=
  if s.jobs.any (·.rest.crashed) then ⟨[], s.jobs.map Job.cancelled⟩ else s

variable [DecidableEq ε]

/-- One step; `sends` is the message an effect sends to the watchers. -/
def step (sends : ε → Option δ) (s : Supervised δ ε α) : Label δ ε α → Option (Supervised δ ε α)
  | .message d => some (s.deliver d).settle
  | .act i e a =>
      match s.jobs[i]? with
      | some ⟨program, .call e' resume⟩ =>
          if e' = e then
            let s := { s with jobs := s.jobs.set i ⟨program, resume a⟩ }
            match sends e with
            | some d => some (s.deliver d).settle
            | none => some s.settle
          else none
      | _ => none

def run (sends : ε → Option δ) (s : Supervised δ ε α) (ls : List (Label δ ε α)) :
    Option (Supervised δ ε α) := ls.foldlM (step sends) s

/-- A program that cannot hurt the others: it never throws, and sends nothing that
a watcher reacts to. -/
def Harmless (watchers : List (Watcher δ ε α)) (sends : ε → Option δ) (p : Prog ε α Unit) :
    Prop :=
  p.NeverThrows ∧ p.Avoids fun e => (sends e).any fun d => !(startedBy watchers d).isEmpty

/-- All watchers are alive, the jobs are those of the messages from outside, and
none of them can hurt the others. -/
structure Healthy (watchers : List (Watcher δ ε α)) (sends : ε → Option δ) (messages : List δ)
    (s : Supervised δ ε α) : Prop where
  alive : s.watchers = watchers
  started : s.jobs.map Job.program = messages.flatMap (startedBy watchers)
  harmless : ∀ job ∈ s.jobs, Harmless watchers sends job.rest

variable {watchers : List (Watcher δ ε α)} {sends : ε → Option δ} {messages : List δ}
  {s s' : Supervised δ ε α}

omit [DecidableEq ε] in
theorem crashed_of_neverThrows {p : Prog ε α Unit} (never : p.NeverThrows) :
    p.crashed = false := by
  cases p with
  | ret r => rfl
  | thrown => exact never.elim
  | call e resume => rfl

omit [DecidableEq ε] in
/-- Where no job throws nothing is aborted. -/
theorem Healthy.settle_eq (healthy : Healthy watchers sends messages s) : s.settle = s := by
  have fine : s.jobs.any (·.rest.crashed) = false := by
    rw [List.any_eq_false]
    intro job member
    rw [crashed_of_neverThrows (healthy.harmless job member).1]
    exact Bool.false_ne_true
  rw [settle, fine]
  rfl

omit [DecidableEq ε] in
theorem Healthy.deliver (healthy : Healthy watchers sends messages s) {d : δ}
    (harmless : ∀ p ∈ startedBy watchers d, Harmless watchers sends p) :
    Healthy watchers sends (messages ++ [d]) (s.deliver d) where
  alive := healthy.alive
  started := by
    rw [Supervised.deliver, List.map_append, healthy.started, healthy.alive, List.flatMap_append,
      List.flatMap_singleton, List.map_map]
    exact congrArg _ (List.map_id _)
  harmless job member := by
    rw [Supervised.deliver, healthy.alive] at member
    rcases List.mem_append.mp member with old | new
    · exact healthy.harmless job old
    · obtain ⟨p, started, rfl⟩ := List.mem_map.mp new
      exact harmless p started

/-- A job that is answered stays harmless, and what it sends starts nothing. -/
theorem Healthy.act (healthy : Healthy watchers sends messages s) {i : Nat} {e : ε} {a : α}
    (taken : s.step sends (.act i e a) = some s') : Healthy watchers sends messages s' := by
  simp only [step] at taken
  split at taken
  · rename_i program e' resume here
    split at taken
    · rename_i same
      subst same
      obtain ⟨never, avoids⟩ := healthy.harmless _ (List.mem_of_getElem? here)
      have resumed : Healthy watchers sends messages
          { s with jobs := s.jobs.set i ⟨program, resume a⟩ } := by
        refine ⟨healthy.alive, ?_, fun job member => ?_⟩
        · rw [← healthy.started, List.map_set]
          have at_i : (s.jobs.map Job.program)[i]? = some program := by
            rw [List.getElem?_map, here]
            rfl
          obtain ⟨inBounds, same⟩ := List.getElem?_eq_some_iff.mp at_i
          dsimp only
          rw [← same]
          exact List.set_getElem_self inBounds
        · rcases List.mem_or_eq_of_mem_set member with old | rfl
          · exact healthy.harmless job old
          · exact ⟨never a, avoids.2 a⟩
      cases sent : sends e' with
      | none =>
        rw [sent] at taken
        cases taken
        rw [resumed.settle_eq]
        exact resumed
      | some d =>
        have silent := avoids.1
        simp only [sent, Option.any_some, Bool.not_eq_false', List.isEmpty_iff] at silent
        rw [sent] at taken
        have same : Supervised.deliver { s with jobs := s.jobs.set i ⟨program, resume a⟩ } d =
            { s with jobs := s.jobs.set i ⟨program, resume a⟩ } := by
          rw [Supervised.deliver, healthy.alive, silent, List.map_nil, List.append_nil]
        cases taken
        rw [same, resumed.settle_eq]
        exact resumed
    · cases taken
  · cases taken

/-- **Watchers whose jobs are harmless stay alive**, and every message starts its
jobs, in every run. -/
theorem Healthy.run (healthy : Healthy watchers sends messages s) {ls : List (Label δ ε α)}
    (harmless : ∀ d, .message d ∈ ls → ∀ p ∈ startedBy watchers d, Harmless watchers sends p)
    (taken : s.run sends ls = some s') :
    Healthy watchers sends (messages ++ ls.filterMap Label.message?) s' := by
  induction ls generalizing s messages with
  | nil =>
      cases taken
      rwa [List.filterMap_nil, List.append_nil]
  | cons l ls ih =>
      obtain ⟨next, first, rest⟩ := Option.bind_eq_some_iff.mp taken
      have later : ∀ d, .message d ∈ ls → ∀ p ∈ startedBy watchers d,
          Harmless watchers sends p := fun d member => harmless d (List.mem_cons_of_mem l member)
      cases l with
      | message d =>
        have delivered := healthy.deliver (harmless d List.mem_cons_self)
        cases first
        rw [delivered.settle_eq] at rest
        have after := ih delivered later rest
        rwa [List.append_assoc] at after
      | act i e a => exact ih (healthy.act first) later rest

omit [DecidableEq ε] in
theorem healthy_initial (watchers : List (Watcher δ ε α)) (sends : ε → Option δ) :
    Healthy watchers sends [] (initial watchers) :=
  ⟨rfl, rfl, fun job none => by cases none⟩

omit [DecidableEq ε] in
/-- One job that crashes takes every watcher with it. -/
theorem watchers_deliver_of_crash {d : δ} (crash : .thrown ∈ startedBy s.watchers d) :
    (s.deliver d).settle.watchers = [] := by
  have crashed : (s.deliver d).jobs.any (·.rest.crashed) = true := by
    rw [List.any_eq_true]
    exact ⟨⟨.thrown, .thrown⟩, List.mem_append_right _ (List.mem_map.mpr ⟨_, crash, rfl⟩), rfl⟩
  rw [settle, if_pos crashed]

end Supervised

end GAMember
