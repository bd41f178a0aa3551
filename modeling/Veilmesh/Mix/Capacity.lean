/-
  The capacity of the scheduler's queue.

  An `Enqueue` call holds a reservation from its first lock region until it gives it back, in
  the deferred release or in its last lock region. The number of reservations is the number of
  calls that hold one, and with the queue they stay within `MaxQueue`, whatever the
  interleaving with the slots and with the end of `Run`.

  * `Capacity.step`: what one step of one goroutine keeps.
  * `queue_within_capacity`: the bound over all runs, and that only a call with a reservation
    has the provider work for it.
-/
import Veilmesh.Mix.Tickets

namespace Veilmesh.Mix

open Lib

/-- Call `i` has a reservation. -/
def System.Holds (s : System) (i : Nat) : Prop := ∃ call, s.calls i = some call ∧ call.holds = true

structure Capacity (s : System) : Prop where
  counted : ∃ holders : Finset Nat, (∀ i, i ∈ holders ↔ s.Holds i) ∧
    s.scheduler.reservations = holders.card
  room : s.scheduler.queue.length + s.scheduler.reservations ≤ s.scheduler.config.maxQueue

namespace Capacity

variable {s s' : System} {i : Nat} {e : Event}

/-- A step of `Run` leaves the calls alone and the queue no longer than it was. -/
theorem frame (h : Capacity s) (hcalls : s'.calls = s.calls)
    (hreservations : s'.scheduler.reservations = s.scheduler.reservations)
    (hqueue : s'.scheduler.queue.length ≤ s.scheduler.queue.length)
    (hconfig : s'.scheduler.config = s.scheduler.config) : Capacity s' := by
  obtain ⟨holders, hmem, hcount⟩ := h.counted
  have hroom := h.room
  refine ⟨⟨holders, fun i => ?_, hreservations.trans hcount⟩, ?_⟩
  · rw [hmem, System.Holds, System.Holds, hcalls]
  · rw [hreservations, hconfig]
    omega

/-- A step of one call moves the count by what the call takes or gives back. -/
theorem update (h : Capacity s) {before : Bool} (hbefore : before = true ↔ s.Holds i) {call : Call}
    (hcalls : s'.calls = Function.update s.calls i (some call))
    (hcount : s'.scheduler.reservations =
      s.scheduler.reservations - before.toNat + call.holds.toNat)
    (hroom : s'.scheduler.queue.length + s'.scheduler.reservations ≤
      s'.scheduler.config.maxQueue) : Capacity s' := by
  obtain ⟨holders, hmem, hsize⟩ := h.counted
  have hself : s'.Holds i ↔ call.holds = true := by
    simp only [System.Holds, hcalls, Function.update_self, Option.some.injEq, exists_eq_left']
  have hother : ∀ j, j ≠ i → (s'.Holds j ↔ s.Holds j) := fun j hj => by
    rw [System.Holds, hcalls, Function.update_of_ne hj, System.Holds]
  have herase : ((holders.erase i).card : Int) = holders.card - before.toNat := by
    cases before with
    | false =>
      have hnot : i ∉ holders := fun hi => Bool.noConfusion (hbefore.mpr ((hmem i).mp hi))
      rw [Finset.erase_eq_of_notMem hnot, Bool.toNat_false, Nat.cast_zero, sub_zero]
    | true =>
      have hin := (hmem i).mpr (hbefore.mp rfl)
      have hpos := Finset.card_pos.mpr ⟨i, hin⟩
      rw [Finset.card_erase_of_mem hin, Bool.toNat_true]
      omega
  refine ⟨?_, hroom⟩
  cases hholds : call.holds with
  | false =>
    refine ⟨holders.erase i, fun j => ?_, ?_⟩
    · rw [Finset.mem_erase, hmem]
      by_cases hj : j = i
      · simp [hj, hself, hholds]
      · simp [hj, hother j hj]
    · rw [hcount, hholds, hsize, herase, Bool.toNat_false, Nat.cast_zero, add_zero]
  | true =>
    refine ⟨insert i (holders.erase i), fun j => ?_, ?_⟩
    · rw [Finset.mem_insert, Finset.mem_erase, hmem]
      by_cases hj : j = i
      · simp [hj, hself, hholds]
      · simp [hj, hother j hj]
    · rw [hcount, hholds, hsize, Finset.card_insert_of_notMem (Finset.notMem_erase i holders),
        Nat.cast_add, herase, Bool.toNat_true]

/-- A slot takes at most the first packet from the queue. -/
theorem slot (h : Capacity s) (next now : Time) (cover : Bytes) :
    Capacity (s.openSlot next now cover) := by
  rcases s.openSlot_cases next now cover with
    ⟨-, heq⟩ | ⟨-, -, heq⟩ | ⟨q, queue, -, hqueue, ⟨-, heq⟩ | ⟨-, heq⟩⟩
  · rw [heq]
    exact h.frame rfl rfl le_rfl rfl
  · rw [heq]
    exact h.frame rfl rfl le_rfl rfl
  · rw [heq]
    exact h.frame rfl rfl (by simp [hqueue]) rfl
  · rw [heq]
    refine h.frame (System.deliver_calls _ _ _) ?_ ?_ ?_ <;> rw [System.deliver_scheduler]
    simp [hqueue]

/-- What one step of one goroutine keeps. -/
theorem step (h : Capacity s) (hstep : Step s e s') : Capacity s' := by
  have hroom := h.room
  cases hstep with
  | call hcall =>
    obtain ⟨reservations, rfl, hcount, hfits⟩ := hcall.scheduler_eq
    exact h.update (by rw [System.Holds, Option.any_eq_true]) rfl hcount (hfits hroom)
  | commit hcall hcommit =>
    obtain ⟨-, rfl⟩ := Scheduler.commit_ok hcommit
    have hheld : true = true ↔ s.Holds _ := iff_of_true rfl ⟨_, hcall, rfl⟩
    refine h.update hheld rfl (by simp [Scheduler.release, Call.holds]) ?_
    simp only [Scheduler.release, List.length_append, List.length_singleton]
    omega
  | wait => exact h.frame rfl rfl le_rfl rfl
  | runRefused => exact h
  | run hstart =>
    obtain ⟨-, -, rfl⟩ := Scheduler.start_ok hstart
    exact h.frame rfl rfl le_rfl rfl
  | phase => exact h.frame rfl rfl le_rfl rfl
  | slot => exact h.slot _ _ _
  | send => exact h.frame rfl rfl le_rfl rfl
  | report =>
    rename_i queued _ _ _
    cases queued with
    | none => exact h.frame rfl rfl le_rfl rfl
    | some q =>
      refine h.frame (System.deliver_calls _ _ _) ?_ ?_ ?_ <;> rw [System.report, System.deliver_scheduler]
      · rfl
      · exact le_rfl
      · rfl
  | finish => exact h.frame rfl rfl le_rfl rfl
  | fail => exact h.frame rfl rfl (Nat.zero_le _) rfl
  | drain =>
    refine h.frame (System.deliver_calls _ _ _) ?_ ?_ ?_ <;> rw [System.deliver_scheduler]
  | leave => exact h.frame rfl rfl le_rfl rfl

end Capacity

/-- The provider works for a call that holds a reservation. -/
theorem Step.prepare_holds {s s' : System} {i : Nat} {answer : Except Bytes Bytes}
    (h : Step s (.prepare i answer) s') : s.Holds i := by
  generalize he : Event.prepare i answer = e at h
  cases h with
  | call hcall =>
    generalize hold : s.calls _ = old at hcall
    cases hcall with
    | prepareFailed =>
      obtain ⟨rfl, -⟩ := Event.prepare.inj he
      exact ⟨_, hold, rfl⟩
    | prepare =>
      obtain ⟨rfl, -⟩ := Event.prepare.inj he
      exact ⟨_, hold, rfl⟩
    | _ => cases he
  | phase hphase =>
    generalize s.run = old at hphase
    cases hphase <;> cases he
  | _ => cases he

/-- In every interleaving the queue and the reservations are within `MaxQueue`, the reservations
    are those of the `Enqueue` calls under way, and the provider prepares a packet only for a call
    that holds one. -/
theorem queue_within_capacity {config : Config} {provider : Option PacketSecurity}
    {sink : Option LinkSecurity} {scheduler : Scheduler}
    (hnew : newScheduler config provider sink = .ok scheduler) {es : List Event} {s : System}
    (h : Run Step (System.initial scheduler) es s) :
    s.scheduler.queue.length + s.scheduler.reservations ≤ scheduler.config.maxQueue ∧
    0 ≤ s.scheduler.reservations ∧
    (∃ holders : Finset Nat, (∀ i, i ∈ holders ↔ s.Holds i) ∧
      s.scheduler.reservations = holders.card) ∧
    ∀ i answer s', Step s (.prepare i answer) s' → s.Holds i := by
  have hstart : Capacity (System.initial scheduler) := by
    obtain ⟨rfl, -, -, hpositive⟩ := newScheduler_ok hnew
    exact ⟨⟨∅, fun i => by simp [System.Holds, System.initial], rfl⟩, hpositive.le⟩
  obtain ⟨hcapacity, hconfig⟩ := Run.invariant
    (I := fun t => Capacity t ∧ t.scheduler.config = scheduler.config)
    (fun t e t' ht hstep => ⟨ht.1.step hstep, hstep.config_eq.trans ht.2⟩) h ⟨hstart, rfl⟩
  obtain ⟨holders, hmem, hcount⟩ := hcapacity.counted
  exact ⟨hconfig ▸ hcapacity.room, by omega, ⟨holders, hmem, hcount⟩,
    fun i answer s' hstep => hstep.prepare_holds⟩

/-- After the sample, nothing is reserved. -/
theorem queue_within_capacity_sample : ∃ s,
    Run Step (System.initial sampleScheduler) sampleEvents s ∧
    s.scheduler.queue.length + s.scheduler.reservations ≤ sampleScheduler.config.maxQueue := by
  obtain ⟨s, hrun, -⟩ := sampleEvents_run
  exact ⟨s, hrun, (queue_within_capacity sampleScheduler_new hrun).1⟩

end Veilmesh.Mix
