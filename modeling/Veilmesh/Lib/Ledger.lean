/-
  A ledger of what was issued and what was settled, in order.

  Everything issued waits in line, and the head of the line is settled with an outcome. So
  what was issued is what was settled followed by what waits, and every statement about the
  settling of a thing issued comes from that:

  * `settled_nodup`: nothing is settled twice.
  * `exists_settled`: what no longer waits has an outcome.
  * `settled_of_before`: things are settled in the order in which they were issued.
-/
import Mathlib.Data.List.Nodup

namespace Veilmesh.Lib

open List

/-- What was settled, with the outcomes, and what still waits. -/
structure Ledger (α ρ : Type*) where
  settled : List (α × ρ)
  pending : List α

namespace Ledger

variable {α ρ κ : Type*} {l : Ledger α ρ} {a b : α}

/-- All that was issued, in order. -/
def issued (l : Ledger α ρ) : List α := l.settled.map Prod.fst ++ l.pending

def issue (l : Ledger α ρ) (a : α) : Ledger α ρ := ⟨l.settled, l.pending ++ [a]⟩

/-- The head of the line is settled. -/
def settle (l : Ledger α ρ) (a : α) (r : ρ) (rest : List α) : Ledger α ρ :=
  ⟨l.settled ++ [(a, r)], rest⟩

theorem issued_issue (l : Ledger α ρ) (a : α) : (l.issue a).issued = l.issued ++ [a] := by
  simp [issued, issue]

theorem issued_settle {rest : List α} (h : l.pending = a :: rest) (r : ρ) :
    (l.settle a r rest).issued = l.issued := by
  simp [issued, settle, h]

section Keys

variable {key : α → κ} (hkeys : (l.issued.map key).Nodup)

include hkeys

/-- Nothing is settled twice. -/
theorem settled_nodup : (l.settled.map fun p => key p.1).Nodup := by
  rw [issued, map_append, map_map] at hkeys
  exact hkeys.of_append_left

/-- What waits has no outcome. -/
theorem not_settled_of_pending (ha : a ∈ l.pending) {p : α × ρ} (hp : p ∈ l.settled) :
    key p.1 ≠ key a := by
  rw [issued, map_append] at hkeys
  intro heq
  have hsettled : key a ∈ (l.settled.map Prod.fst).map key :=
    heq ▸ mem_map_of_mem (mem_map_of_mem hp)
  exact disjoint_of_nodup_append hkeys hsettled (mem_map_of_mem ha)

end Keys

/-- What no longer waits has an outcome. -/
theorem exists_settled (ha : a ∈ l.issued) (hpending : a ∉ l.pending) :
    ∃ r, (a, r) ∈ l.settled := by
  rcases mem_append.mp ha with ha | ha
  · obtain ⟨⟨_, r⟩, hp, rfl⟩ := mem_map.mp ha
    exact ⟨r, hp⟩
  · exact absurd ha hpending

/-- What was issued before a thing at or before the head of the line is settled, and what was
    settled after it comes first behind it. -/
theorem settled_of_before {before after : List α} (hsplit : l.issued = before ++ a :: after)
    (hb : b ∈ after) (hfront : b ∉ l.pending.tail) :
    ∃ first r later, l.settled = first ++ (a, r) :: later ∧
      after = later.map Prod.fst ++ l.pending := by
  have hbehind : ∀ mid, l.pending ≠ mid ++ a :: after := by
    intro mid hpending
    refine hfront ?_
    rw [hpending]
    cases mid with
    | nil => exact hb
    | cons c mid => exact mem_append_right _ (mem_cons_of_mem _ hb)
  rcases append_eq_append_iff.mp hsplit with ⟨mid, -, hpending⟩ | ⟨mid, hsettled, hrest⟩
  · exact absurd hpending (hbehind mid)
  cases mid with
  | nil => exact absurd hrest.symm (hbehind [])
  | cons c mid =>
    obtain ⟨rfl, hafter⟩ := List.cons.inj hrest
    obtain ⟨first, tail, hl, -, htail⟩ := map_eq_append_iff.mp hsettled
    obtain ⟨⟨_, r⟩, later, rfl, rfl, rfl⟩ := map_eq_cons_iff.mp htail
    exact ⟨first, r, later, hl, hafter⟩

end Ledger

end Veilmesh.Lib
