import Mathlib.Tactic.Common

/-!
# Programs that call their environment

A `Prog ε α ρ` returns a `ρ`, ends with an uncaught exception, or performs an
effect from `ε` and resumes with the answer from `α` its environment gives. It
is the residual of a generator at a suspension point: what is left to do, as a
function of the answers still to come. All programs here are finite trees.

* `Prog.bind`, `Prog.tryCatch`: sequencing and exception handling, so that a
  generator body can be written in `do` notation.
* `Prog.run`: the complete trace of one run against an environment that answers
  by the history so far.
* `Prog.NeverThrows`, `Prog.Avoids`: no path ends in an exception, or performs an
  effect of a given kind.
* `Prog.Along`: a property of every residual of a program together with the
  history that leads to it, as long as the answers stay within `ok`.
-/

namespace GAMember

/-- A finite program over effects `ε` answered in `α`, with results in `ρ`. -/
inductive Prog (ε α ρ : Type) : Type
  | ret (result : ρ)
  | thrown
  | call (effect : ε) (resume : α → Prog ε α ρ)

namespace Prog

variable {ε α ρ σ : Type}

def bind : Prog ε α ρ → (ρ → Prog ε α σ) → Prog ε α σ
  | .ret r, next => next r
  | .thrown, _ => .thrown
  | .call e resume, next => .call e fun a => (resume a).bind next

instance : Monad (Prog ε α) where
  pure := .ret
  bind := Prog.bind

/-- `try p catch handler`: the handler runs where `p` throws. -/
def tryCatch : Prog ε α ρ → Prog ε α ρ → Prog ε α ρ
  | .ret r, _ => .ret r
  | .thrown, handler => handler
  | .call e resume, handler => .call e fun a => (resume a).tryCatch handler

@[simp] theorem pure_eq (r : ρ) : (pure r : Prog ε α ρ) = .ret r := rfl

@[simp] theorem ret_bind (r : ρ) (next : ρ → Prog ε α σ) :
    (Prog.ret r >>= next) = next r := rfl

@[simp] theorem thrown_bind (next : ρ → Prog ε α σ) :
    ((Prog.thrown : Prog ε α ρ) >>= next) = .thrown := rfl

@[simp] theorem call_bind (e : ε) (resume : α → Prog ε α ρ) (next : ρ → Prog ε α σ) :
    (Prog.call e resume >>= next) = .call e fun a => resume a >>= next := rfl

@[simp] theorem tryCatch_ret (r : ρ) (handler : Prog ε α ρ) :
    (Prog.ret r).tryCatch handler = .ret r := rfl

@[simp] theorem tryCatch_thrown (handler : Prog ε α ρ) :
    Prog.thrown.tryCatch handler = handler := rfl

@[simp] theorem tryCatch_call (e : ε) (resume : α → Prog ε α ρ) (handler : Prog ε α ρ) :
    (Prog.call e resume).tryCatch handler =
      .call e fun a => (resume a).tryCatch handler := rfl

/-- The effect the program is about to perform. -/
def head? : Prog ε α ρ → Option ε
  | .call e _ => some e
  | _ => none

/-- The program has nothing left to do. -/
def finished : Prog ε α ρ → Bool
  | .call _ _ => false
  | _ => true

@[simp] theorem head?_ret (r : ρ) : (Prog.ret r : Prog ε α ρ).head? = none := rfl

@[simp] theorem head?_thrown : (Prog.thrown : Prog ε α ρ).head? = none := rfl

@[simp] theorem head?_call (e : ε) (resume : α → Prog ε α ρ) :
    (Prog.call e resume).head? = some e := rfl

@[simp] theorem finished_ret (r : ρ) : (Prog.ret r : Prog ε α ρ).finished = true := rfl

@[simp] theorem finished_thrown : (Prog.thrown : Prog ε α ρ).finished = true := rfl

@[simp] theorem finished_call (e : ε) (resume : α → Prog ε α ρ) :
    (Prog.call e resume).finished = false := rfl

theorem head?_isSome (p : Prog ε α ρ) : p.head?.isSome = !p.finished := by
  cases p <;> rfl

/-! ## One complete run -/

/-- The trace of the run of a program against `env`, which answers each effect
by the effects answered before it. -/
def run (env : List (ε × α) → ε → α) : List (ε × α) → Prog ε α ρ → List (ε × α)
  | past, .ret _ => past
  | past, .thrown => past
  | past, .call e resume => run env (past ++ [(e, env past e)]) (resume (env past e))

@[simp] theorem run_ret (env : List (ε × α) → ε → α) (past : List (ε × α)) (r : ρ) :
    run env past (.ret r : Prog ε α ρ) = past := rfl

@[simp] theorem run_thrown (env : List (ε × α) → ε → α) (past : List (ε × α)) :
    run env past (.thrown : Prog ε α ρ) = past := rfl

@[simp] theorem run_call (env : List (ε × α) → ε → α) (past : List (ε × α))
    (e : ε) (resume : α → Prog ε α ρ) :
    run env past (.call e resume) =
      run env (past ++ [(e, env past e)]) (resume (env past e)) := rfl

/-! ## Programs without exceptions, programs without some effects -/

/-- No path of the program ends in an uncaught exception. -/
def NeverThrows : Prog ε α ρ → Prop
  | .ret _ => True
  | .thrown => False
  | .call _ resume => ∀ a, (resume a).NeverThrows

/-- A handler around a program that never throws does nothing. -/
theorem NeverThrows.tryCatch_eq {p : Prog ε α ρ} (never : p.NeverThrows) (handler : Prog ε α ρ) :
    p.tryCatch handler = p := by
  induction p with
  | ret r => rfl
  | thrown => exact never.elim
  | call e resume ih =>
      rw [tryCatch_call]
      exact congrArg _ (funext fun a => ih a (never a))

theorem neverThrows_ret (r : ρ) : (Prog.ret r : Prog ε α ρ).NeverThrows := trivial

theorem NeverThrows.of_handler {handler : Prog ε α ρ} (never : handler.NeverThrows)
    (p : Prog ε α ρ) : (p.tryCatch handler).NeverThrows := by
  induction p with
  | ret r => trivial
  | thrown => exact never
  | call e resume ih => exact fun a => ih a

/-- No path of the program performs an effect that `bad` picks out. -/
def Avoids (bad : ε → Bool) : Prog ε α ρ → Prop
  | .ret _ => True
  | .thrown => True
  | .call e resume => bad e = false ∧ ∀ a, (resume a).Avoids bad

theorem avoids_ret (bad : ε → Bool) (r : ρ) : (Prog.ret r : Prog ε α ρ).Avoids bad := trivial

theorem Avoids.bind {bad : ε → Bool} {p : Prog ε α ρ} {next : ρ → Prog ε α σ}
    (first : p.Avoids bad) (rest : ∀ r, (next r).Avoids bad) : (p >>= next).Avoids bad := by
  induction p with
  | ret r => exact rest r
  | thrown => trivial
  | call e resume ih => exact ⟨first.1, fun a => ih a (first.2 a)⟩

theorem Avoids.tryCatch {bad : ε → Bool} {p handler : Prog ε α ρ}
    (body : p.Avoids bad) (caught : handler.Avoids bad) : (p.tryCatch handler).Avoids bad := by
  induction p with
  | ret r => trivial
  | thrown => exact caught
  | call e resume ih => exact ⟨body.1, fun a => ih a (body.2 a)⟩

theorem Avoids.mono {bad bad' : ε → Bool} {p : Prog ε α ρ} (avoids : p.Avoids bad)
    (weaken : ∀ e, bad e = false → bad' e = false) : p.Avoids bad' := by
  induction p with
  | ret r => trivial
  | thrown => trivial
  | call e resume ih => exact ⟨weaken e avoids.1, fun a => ih a (avoids.2 a)⟩

/-- A run of such a program adds no such effect to the trace. -/
theorem Avoids.run_eq_append {bad : ε → Bool} {p : Prog ε α ρ} (avoids : p.Avoids bad)
    (env : List (ε × α) → ε → α) (past : List (ε × α)) :
    ∃ tail, run env past p = past ++ tail ∧ ∀ step ∈ tail, bad step.1 = false := by
  induction p generalizing past with
  | ret r => exact ⟨[], (List.append_nil past).symm, by simp⟩
  | thrown => exact ⟨[], (List.append_nil past).symm, by simp⟩
  | call e resume ih =>
      obtain ⟨tail, trace, clean⟩ := ih (env past e) (avoids.2 _) (past ++ [(e, env past e)])
      refine ⟨(e, env past e) :: tail, by simpa using trace, ?_⟩
      simpa [avoids.1] using clean

/-! ## Every residual of a program -/

/-- `Along ok P past p`: `P` holds of `p` with the history `past`, and of every
residual of `p` with its history, through all answers that `ok` admits. -/
def Along (ok : List (ε × α) → ε → α → Prop) (P : List (ε × α) → Prog ε α ρ → Prop) :
    List (ε × α) → Prog ε α ρ → Prop
  | past, .ret r => P past (.ret r)
  | past, .thrown => P past .thrown
  | past, .call e resume =>
      P past (.call e resume) ∧
        ∀ a, ok past e a → Along ok P (past ++ [(e, a)]) (resume a)

variable {ok : List (ε × α) → ε → α → Prop} {P Q : List (ε × α) → Prog ε α ρ → Prop}

@[simp] theorem along_ret (past : List (ε × α)) (r : ρ) :
    Along ok P past (.ret r) ↔ P past (.ret r) := Iff.rfl

@[simp] theorem along_thrown (past : List (ε × α)) :
    Along ok P past .thrown ↔ P past .thrown := Iff.rfl

@[simp] theorem along_call (past : List (ε × α)) (e : ε) (resume : α → Prog ε α ρ) :
    Along ok P past (.call e resume) ↔
      P past (.call e resume) ∧
        ∀ a, ok past e a → Along ok P (past ++ [(e, a)]) (resume a) := Iff.rfl

theorem Along.here {past : List (ε × α)} {p : Prog ε α ρ} (along : Along ok P past p) :
    P past p := by
  cases p with
  | ret r => exact along
  | thrown => exact along
  | call e resume => exact along.1

theorem Along.next {past : List (ε × α)} {e : ε} {resume : α → Prog ε α ρ} {a : α}
    (along : Along ok P past (.call e resume)) (admitted : ok past e a) :
    Along ok P (past ++ [(e, a)]) (resume a) :=
  along.2 a admitted

theorem Along.mono {past : List (ε × α)} {p : Prog ε α ρ} (along : Along ok P past p)
    (weaken : ∀ past p, P past p → Q past p) : Along ok Q past p := by
  induction p generalizing past with
  | ret r => exact weaken _ _ along
  | thrown => exact weaken _ _ along
  | call e resume ih =>
      exact ⟨weaken _ _ along.1, fun a admitted => ih a (along.2 a admitted)⟩

/-- What holds whatever the answers are holds for those that are admitted. -/
theorem Along.restrict {past : List (ε × α)} {p : Prog ε α ρ}
    (along : Along (fun _ _ _ => True) P past p) : Along ok P past p := by
  induction p generalizing past with
  | ret r => exact along
  | thrown => exact along
  | call e resume ih => exact ⟨along.1, fun a _ => ih a (along.2 a trivial)⟩

theorem Along.and {past : List (ε × α)} {p : Prog ε α ρ} (first : Along ok P past p)
    (second : Along ok Q past p) : Along ok (fun past p => P past p ∧ Q past p) past p := by
  induction p generalizing past with
  | ret r => exact ⟨first, second⟩
  | thrown => exact ⟨first, second⟩
  | call e resume ih =>
      exact ⟨⟨first.1, second.1⟩, fun a admitted => ih a (first.2 a admitted) (second.2 a admitted)⟩

/-- A property that holds wherever no `bad` effect comes next holds along a program
that avoids them. -/
theorem Avoids.along_head {bad : ε → Bool} {p : Prog ε α ρ} (avoids : p.Avoids bad)
    (quiet : ∀ past (p : Prog ε α ρ), (∀ e, p.head? = some e → bad e = false) → P past p)
    (past : List (ε × α)) : Along ok P past p := by
  induction p generalizing past with
  | ret r => exact quiet _ _ fun e here => nomatch here
  | thrown => exact quiet _ _ fun e here => nomatch here
  | call e resume ih =>
      refine ⟨quiet _ _ fun e' here => ?_, fun a _ => ih a (avoids.2 a) _⟩
      cases here
      exact avoids.1

/-- A program that avoids an effect never stands at it nor has performed it. -/
theorem Avoids.along {bad : ε → Bool} {p : Prog ε α ρ} (avoids : p.Avoids bad)
    {past : List (ε × α)} (clean : ∀ step ∈ past, bad step.1 = false) :
    Along ok (fun hist p => (∀ step ∈ hist, bad step.1 = false) ∧
      ∀ e, p.head? = some e → bad e = false) past p := by
  induction p generalizing past with
  | ret r => exact ⟨clean, by simp⟩
  | thrown => exact ⟨clean, by simp⟩
  | call e resume ih =>
      refine ⟨⟨clean, fun e' here => ?_⟩, fun a _ => ih a (avoids.2 a) fun step member => ?_⟩
      · cases here
        exact avoids.1
      · rcases List.mem_append.mp member with old | new
        · exact clean step old
        · cases List.mem_singleton.mp new
          exact avoids.1

end Prog

end GAMember
