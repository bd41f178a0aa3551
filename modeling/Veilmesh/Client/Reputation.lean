/-
  What a client remembers of the nodes it uses (`client/reputation.go`).

  A node that fails three times in a row is left out for a day. `err` is the text of an
  error, `now` the clock at the call.
-/
import Veilmesh.Lib.GoMap
import Veilmesh.Lib.Time

namespace Veilmesh.Client

open Lib

structure NodeScore where
  nodeID : Bytes
  successfulStores : UInt64
  successfulProofs : UInt64
  failures : UInt64
  consecutiveFails : UInt32
  excludedUntil : Time
  lastFailure : Bytes
  deriving DecidableEq, Repr

/-- What a map lookup gives for an unknown node. -/
def NodeScore.zero : NodeScore := ⟨[], 0, 0, 0, 0, Time.zero, []⟩

structure Reputation where
  scores : GoMap Bytes NodeScore

def newReputation : Reputation := ⟨∅⟩

namespace Reputation

def score (r : Reputation) (nodeID : Bytes) : NodeScore := r.scores.getD nodeID .zero

def success (r : Reputation) (nodeID : Bytes) (proof : Bool) : Reputation :=
  let score := { r.score nodeID with nodeID := nodeID, consecutiveFails := 0 }
  let score :=
    if proof then { score with successfulProofs := score.successfulProofs + 1 }
    else { score with successfulStores := score.successfulStores + 1 }
  ⟨r.scores.insert nodeID score⟩

def failure (r : Reputation) (nodeID : Bytes) (err : Option Bytes) (now : Time) : Reputation :=
  let score := r.score nodeID
  let score := { score with
    nodeID := nodeID
    failures := score.failures + 1
    consecutiveFails := score.consecutiveFails + 1
    lastFailure := err.getD score.lastFailure }
  let score :=
    if 3 ≤ score.consecutiveFails then { score with excludedUntil := now.add (24 * hour) } else score
  ⟨r.scores.insert nodeID score⟩

def exclude (r : Reputation) (nodeID : Bytes) (duration : Duration) (reason : Option Bytes)
    (now : Time) : Reputation :=
  let score := r.score nodeID
  ⟨r.scores.insert nodeID { score with
    nodeID := nodeID
    failures := score.failures + 1
    consecutiveFails := score.consecutiveFails + 1
    excludedUntil := now.add duration
    lastFailure := reason.getD score.lastFailure }⟩

def allowed (r : Reputation) (nodeID : Bytes) (now : Time) : Bool :=
  !(r.score nodeID).excludedUntil.after now

/-- At first every node may be used. -/
theorem allowed_new (nodeID : Bytes) {now : Time} (h : 0 ≤ now.ns) :
    newReputation.allowed nodeID now = true := by
  have hafter : Time.zero.after now = false := decide_eq_false (not_lt.mpr h)
  simp [allowed, score, newReputation, GoMap.getD, NodeScore.zero, hafter]

end Reputation

end Veilmesh.Client
