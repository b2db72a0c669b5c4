import GAMember.Device.World
import GAMember.Effects.Machine
import GAMember.Saga.Points

/-!
# Runs on one device

`device` interleaves the runs of all sagas on one device. A request is reduced
into the store and starts its run. Which answers the calls of a run can get is a
parameter, so that a result may hold for any environment or for one with a
Google SDK that behaves.
-/

namespace GAMember

/-- The machine of all saga runs on a device. -/
def device (base64 : String → String) (allows : Device → Eff → Answer → Bool) :
    Machine Device Request Eff Answer where
  prog := takeEvery base64
  begin d r := { d with store := d.store.reducer r.action }
  allows := allows
  after := Device.after

section

variable {base64 : String → String} {allows : Device → Eff → Answer → Bool} {d : Device}
  {ls : List (Label Request Eff Answer)} {c c' : Conf Device Request Eff Answer}
  {i : Nat} {t : Thread Request Eff Answer}

/-- Every run stands at one of its points. -/
theorem thread_point (taken : (device base64 allows).run (.initial d) ls = some c)
    (here : c.thread? i = some t) : t.tag.Point t.hist t.rest.head? :=
  (Machine.thread_along_any (takeEvery_points base64) taken here).here

/-- What the step of a run does: the run is at the effect before, at a point of
its own after it, and no other run moves. -/
theorem device_act {e : Eff} {a : Answer}
    (before : (device base64 allows).run (.initial d) ls = some c)
    (taken : (device base64 allows).step c (.act i e a) = some c') :
    ∃ t t', c.thread? i = some t ∧ t.rest.head? = some e ∧ t.tag.Point t.hist (some e) ∧
      allows c.world e a = true ∧ c'.world = c.world.after e a ∧
      c'.thread? i = some t' ∧ t'.tag = t.tag ∧ t'.hist = t.hist ++ [(e, a)] ∧
      t'.tag.Point t'.hist t'.rest.head? ∧
      ∀ j, j ≠ i → c'.thread? j = c.thread? j := by
  obtain ⟨t, resume, here, rest, admitted, rfl⟩ := Machine.step_act taken
  have inBounds := Machine.lt_of_thread? here
  have moved : Conf.thread? ⟨c.world.after e a, c.threads.set i (t.resumed e a (resume a))⟩ i =
      some (t.resumed e a (resume a)) := by
    rw [Machine.thread?_set inBounds, if_pos rfl]
  have point := thread_point before here
  rw [rest, Prog.head?_call] at point
  refine ⟨t, _, here, by rw [rest]; rfl, point, admitted, rfl, moved, rfl, rfl,
    thread_point (Machine.run_concat before taken) moved, ?_⟩
  intro j other
  rw [Machine.thread?_set inBounds, if_neg other.symm]

end

end GAMember
