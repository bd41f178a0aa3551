/-
  The work limits of the node directory (`EnableDirectory`, `acquireDirectoryWork` and
  `releaseDirectoryWork` of `node/server.go`).

  A call goes through two stages. The limiter keeps, for each address, the time of the last call
  from there that it let through; with 4096 addresses it first drops those it has not heard of for
  ten minutes. What it lets through takes one of eight places, if there is one. An address is what
  the map is indexed by: its text.

  * `limitAddress_spec`: what the limiter does in one call.
  * `directory_limits`: bounds and fairness of the limiter over all sequences of calls.
-/
import Veilmesh.Lib.NetAddr
import Veilmesh.Lib.Run

namespace Veilmesh.Node

open Lib List GoMap

/-! ## The model -/

/-- What the server has for the directory: the identity of the agent, the places taken (none
    for a nil channel) and the times of the last calls. -/
structure DirectoryServer where
  nodeID : Bytes
  directory : Option Bytes
  directoryWork : Option Nat
  directoryLast : GoMap Bytes Time

/-- The capacity of the channel. -/
def directoryPlaces : Nat := 8

def maxDirectoryAddresses : Nat := 4096

/-- The limiter; `order` is the order in which the loop visits the map. -/
def limitAddress (last : GoMap Bytes Time) (key : Bytes) (now : Time) (order : List Bytes) :
    Bool × GoMap Bytes Time :=
  if (last.lookup key).any fun previous => decide (now.sub previous < second) then (false, last)
  else if last.size ≥ maxDirectoryAddresses then
    let cutoff := now.add (-10 * minute)
    let kept := last.eraseWhere (fun seenAt => seenAt.before cutoff) order
    if kept.size ≥ maxDirectoryAddresses then (false, kept) else (true, kept.insert key now)
  else (true, last.insert key now)

def limiterStage (last : GoMap Bytes Time) (remoteIP : Addr) (now : Time) (rateLimit : Bool)
    (order : List Bytes) : Bool × GoMap Bytes Time :=
  if rateLimit then limitAddress last remoteIP.text now order else (true, last)

/-- A call; `remoteIP` is missing if the address is not valid. -/
def acquireDirectoryWork (s : DirectoryServer) (remoteIP : Option Addr) (now : Time)
    (rateLimit : Bool) (order : List Bytes) : Bool × DirectoryServer :=
  match s.directoryWork, remoteIP with
  | some taken, some address =>
    match limiterStage s.directoryLast address now rateLimit order with
    | (false, last) => (false, { s with directoryLast := last })
    | (true, last) =>
      if taken < directoryPlaces then
        (true, { s with directoryLast := last, directoryWork := some (taken + 1) })
      else (false, { s with directoryLast := last })
  | _, _ => (false, s)

/-- A call with a valid address, whether it passed the limiter and whether it got a place; or
    the return of a place. -/
inductive DirectoryEvent where
  | acquire (remoteIP : Addr) (now : Time) (rateLimit passed granted : Bool)
  | release
  deriving DecidableEq, Repr

open DirectoryEvent

namespace DirectoryEvent

def time? : DirectoryEvent → Option Time
  | acquire _ now _ _ _ => some now
  | release => none

def isGrant : DirectoryEvent → Bool
  | acquire _ _ _ _ granted => granted
  | release => false

def isRelease : DirectoryEvent → Bool
  | acquire _ _ _ _ _ => false
  | release => true

end DirectoryEvent

/-- A receive from the empty channel would wait; it is no step. -/
inductive DirectoryStep : DirectoryServer → DirectoryEvent → DirectoryServer → Prop where
  | acquire {s : DirectoryServer} {remoteIP : Addr} {now : Time} {rateLimit : Bool}
      {order : List Bytes} (horder : ∀ k ∈ s.directoryLast.keys, k ∈ order) :
      DirectoryStep s (.acquire remoteIP now rateLimit
        (limiterStage s.directoryLast remoteIP now rateLimit order).1
        (acquireDirectoryWork s (some remoteIP) now rateLimit order).1)
        (acquireDirectoryWork s (some remoteIP) now rateLimit order).2
  | release {s : DirectoryServer} {taken : Nat} (h : s.directoryWork = some (taken + 1)) :
      DirectoryStep s .release { s with directoryWork := some taken }

/-- The limiter let a call from the address through at that time. -/
def Recorded (history : List DirectoryEvent) (key : Bytes) (t : Time) : Prop :=
  ∃ remoteIP granted, remoteIP.text = key ∧ .acquire remoteIP t true true granted ∈ history

/-- Times do not decrease. -/
def InOrder (history : List DirectoryEvent) : Prop :=
  (history.filterMap DirectoryEvent.time?).Pairwise fun t u => t.ns ≤ u.ns

/-! ## One call -/

theorem sub_lt_second {t u : Time} : t.sub u < second ↔ t.ns < u.ns + second := by
  change (max (-2 ^ 63) (min maxInt64 (t.ns - u.ns)) : Int) < 10 ^ 9 ↔ t.ns < u.ns + 10 ^ 9
  unfold maxInt64
  omega

/-- What the limiter makes of the times it has. -/
structure Limits (last : GoMap Bytes Time) (key : Bytes) (now : Time)
    (result : Bool × GoMap Bytes Time) : Prop where
  known : ∀ k t, result.2.lookup k = some t → last.lookup k = some t ∨
    result.1 = true ∧ k = key ∧ t = now
  kept : ∀ k t, last.lookup k = some t → result.2.lookup k = some t ∨
    result.1 = true ∧ k = key ∨ t.ns + 10 * minute < now.ns
  size : last.size ≤ maxDirectoryAddresses → result.2.size ≤ maxDirectoryAddresses
  passed : result.1 = true → result.2.lookup key = some now ∧
    ∀ t, last.lookup key = some t → t.ns + second ≤ now.ns
  stopped : result.1 = false → (∃ t, last.lookup key = some t ∧ now.ns < t.ns + second) ∨
    maxDirectoryAddresses ≤ result.2.size ∧
      ∀ k t, result.2.lookup k = some t → now.ns ≤ t.ns + 10 * minute

/-- Recording the address among what has been kept of the map. -/
theorem limits_insert {last kept : GoMap Bytes Time} {key : Bytes} {now : Time}
    (hold : ∀ t, last.lookup key = some t → t.ns + second ≤ now.ns)
    (hroom : kept.size < maxDirectoryAddresses)
    (hsub : ∀ k t, kept.lookup k = some t → last.lookup k = some t)
    (hgone : ∀ k t, last.lookup k = some t → kept.lookup k = some t ∨
      t.ns + 10 * minute < now.ns) : Limits last key now (true, kept.insert key now) where
  known k t h := by
    rw [lookup_insert_eq] at h
    split at h
    · rename_i hk
      exact .inr ⟨rfl, hk, (Option.some.inj h).symm⟩
    · exact .inl (hsub k t h)
  kept k t h := by
    by_cases hk : k = key
    · exact .inr (.inl ⟨rfl, hk⟩)
    · rw [lookup_insert_eq, if_neg hk]
      rcases hgone k t h with h | h
      · exact .inl h
      · exact .inr (.inr h)
  size _ := (size_insert_le kept key now).trans hroom
  passed _ := ⟨Finmap.lookup_insert _, hold⟩
  stopped h := nomatch h

theorem limitAddress_spec (last : GoMap Bytes Time) (key : Bytes) (now : Time) {order : List Bytes}
    (horder : ∀ k ∈ last.keys, k ∈ order) : Limits last key now (limitAddress last key now order) := by
  unfold limitAddress
  split
  · rename_i hsoon
    obtain ⟨t, ht, hlt⟩ := Option.any_eq_true _ _ |>.mp hsoon
    exact ⟨fun _ _ h => .inl h, fun _ _ h => .inl h, id, Bool.noConfusion, fun _ =>
      .inl ⟨t, ht, sub_lt_second.mp (of_decide_eq_true hlt)⟩⟩
  · rename_i hsoon
    have hold : ∀ t, last.lookup key = some t → t.ns + second ≤ now.ns := by
      intro t ht
      rw [ht, Option.any_some, decide_eq_true_eq, sub_lt_second, not_lt] at hsoon
      exact hsoon
    have hkept : ∀ k t, (last.eraseWhere (fun seenAt => seenAt.before (now.add (-10 * minute)))
        order).lookup k = some t ↔ last.lookup k = some t ∧ now.ns ≤ t.ns + 10 * minute := by
      intro k t
      rw [lookup_eraseWhere, Option.filter_eq_some_iff]
      refine and_congr_right fun hk => ?_
      simp only [horder k (mem_keys_of_lookup hk), decide_true, Bool.and_true,
        Bool.not_eq_true', ← Bool.not_eq_true, Time.before_iff, Time.add_ns, not_lt]
      change now.ns + -10 * (60 * 10 ^ 9) ≤ t.ns ↔ now.ns ≤ t.ns + 10 * (60 * 10 ^ 9)
      omega
    have hgone : ∀ k t, last.lookup k = some t →
        (last.eraseWhere (fun seenAt => seenAt.before (now.add (-10 * minute))) order).lookup k =
          some t ∨ t.ns + 10 * minute < now.ns := by
      intro k t hk
      rcases le_or_gt now.ns (t.ns + 10 * minute) with hle | hlt
      · exact .inl ((hkept k t).mpr ⟨hk, hle⟩)
      · exact .inr hlt
    split
    · dsimp only
      split
      · rename_i hfull
        exact ⟨fun k t h => .inl ((hkept k t).mp h).1,
          fun k t h => (hgone k t h).imp id .inr,
          (size_le_of_lookup fun k t h => ⟨t, ((hkept k t).mp h).1⟩).trans, Bool.noConfusion,
          fun _ => .inr ⟨hfull, fun k t h => ((hkept k t).mp h).2⟩⟩
      · rename_i hroom
        exact limits_insert hold (not_le.mp hroom) (fun k t h => ((hkept k t).mp h).1) hgone
    · rename_i hroom
      exact limits_insert hold (not_le.mp hroom) (fun _ _ h => h) fun _ _ h => .inl h

/-! ## Sequences of calls -/

/-- The places taken are the grants that no release has followed. -/
def Places (history : List DirectoryEvent) (s : DirectoryServer) : Prop :=
  ∃ taken ≤ directoryPlaces, s.directoryWork = some taken ∧
    history.countP DirectoryEvent.isGrant = history.countP DirectoryEvent.isRelease + taken

/-- What holds of the server after the calls of the history. -/
structure Limited (history : List DirectoryEvent) (s : DirectoryServer) : Prop where
  size : s.directoryLast.size ≤ maxDirectoryAddresses
  recorded : ∀ k t, s.directoryLast.lookup k = some t → Recorded history k t
  kept : ∀ k t, Recorded history k t →
    (∃ t', s.directoryLast.lookup k = some t' ∧ t.ns ≤ t'.ns) ∨
      ∃ u ∈ history.filterMap DirectoryEvent.time?, t.ns + 10 * minute < u.ns
  places : Places history s

section

variable {history : List DirectoryEvent} {s s' : DirectoryServer} {e : DirectoryEvent}

theorem recorded_append {k : Bytes} {t : Time} : Recorded (history ++ [e]) k t ↔
    Recorded history k t ∨ ∃ remoteIP granted, remoteIP.text = k ∧
      e = .acquire remoteIP t true true granted := by
  simp only [Recorded, mem_append, mem_singleton]
  constructor
  · rintro ⟨remoteIP, granted, hk, h | h⟩
    · exact .inl ⟨remoteIP, granted, hk, h⟩
    · exact .inr ⟨remoteIP, granted, hk, h.symm⟩
  · rintro (⟨remoteIP, granted, hk, h⟩ | ⟨remoteIP, granted, hk, h⟩)
    · exact ⟨remoteIP, granted, hk, .inl h⟩
    · exact ⟨remoteIP, granted, hk, .inr h.symm⟩

/-- A step that lets nobody through and leaves the times as they are. -/
theorem Limited.same (h : Limited history s) (hlast : s'.directoryLast = s.directoryLast)
    (hnew : ∀ remoteIP t granted, e ≠ .acquire remoteIP t true true granted)
    (hplaces : Places (history ++ [e]) s') : Limited (history ++ [e]) s' := by
  refine ⟨hlast ▸ h.size, fun k t hk => ?_, fun k t hk => ?_, hplaces⟩
  · rw [hlast] at hk
    exact recorded_append.mpr (.inl (h.recorded k t hk))
  · obtain hk | ⟨remoteIP, granted, -, rfl⟩ := recorded_append.mp hk
    · rw [hlast]
      obtain hkept | ⟨u, hu, hlt⟩ := h.kept k t hk
      · exact .inl hkept
      · exact .inr ⟨u, by rw [filterMap_append]; exact mem_append_left _ hu, hlt⟩
    · exact absurd rfl (hnew remoteIP t granted)

/-- A call that goes through the limiter. -/
theorem Limited.limit (h : Limited history s) {remoteIP : Addr} {now : Time} {granted : Bool}
    {result : Bool × GoMap Bytes Time} (hlimits : Limits s.directoryLast remoteIP.text now result)
    (he : e = .acquire remoteIP now true result.1 granted) (hlast : s'.directoryLast = result.2)
    (hplaces : Places (history ++ [e]) s') : Limited (history ++ [e]) s' := by
  have hnow : now ∈ (history ++ [e]).filterMap time? := by
    rw [he, filterMap_append]
    exact mem_append_right _ mem_cons_self
  refine ⟨hlast ▸ hlimits.size h.size, fun k t hk => ?_, fun k t hk => ?_, hplaces⟩
  · rw [hlast] at hk
    obtain hold | ⟨hpassed, rfl, rfl⟩ := hlimits.known k t hk
    · exact recorded_append.mpr (.inl (h.recorded k t hold))
    · exact recorded_append.mpr (.inr ⟨remoteIP, granted, rfl, by rw [he, hpassed]⟩)
  · rw [hlast]
    obtain hk | ⟨address, granted', rfl, heq⟩ := recorded_append.mp hk
    · obtain ⟨t', ht', hle⟩ | ⟨u, hu, hlt⟩ := h.kept k t hk
      · obtain hsame | ⟨hpassed, rfl⟩ | hgone := hlimits.kept k t' ht'
        · exact .inl ⟨t', hsame, hle⟩
        · obtain ⟨hin, hlater⟩ := hlimits.passed hpassed
          have hsecond : (0 : Int) ≤ second := by decide
          have := hlater t' ht'
          exact .inl ⟨now, hin, by omega⟩
        · exact .inr ⟨now, hnow, by omega⟩
      · exact .inr ⟨u, by rw [filterMap_append]; exact mem_append_left _ hu, hlt⟩
    · obtain ⟨rfl, rfl, -, hpassed, -⟩ := acquire.inj (he.symm.trans heq)
      exact .inl ⟨now, (hlimits.passed hpassed).1, le_rfl⟩

theorem Limited.step (h : Limited history s) (hstep : DirectoryStep s e s') :
    Limited (history ++ [e]) s' := by
  obtain ⟨taken, hle, hwork, hcount⟩ := h.places
  cases hstep with
  | release hrelease =>
    rename_i taken'
    obtain rfl := Option.some.inj (hwork.symm.trans hrelease)
    refine h.same rfl (fun _ _ _ => DirectoryEvent.noConfusion) ⟨taken', by omega, rfl, ?_⟩
    rw [countP_append, countP_append, hcount]
    simp [isGrant, isRelease]
    omega
  | acquire horder =>
    rename_i remoteIP now rateLimit order
    generalize hresult : acquireDirectoryWork s (some remoteIP) now rateLimit order = result
    obtain ⟨hlast, hplaces⟩ : result.2.directoryLast =
        (limiterStage s.directoryLast remoteIP now rateLimit order).2 ∧
        (result.1 = true ∧ taken < directoryPlaces ∧ result.2.directoryWork = some (taken + 1) ∨
          result.1 = false ∧ result.2.directoryWork = some taken) := by
      rw [← hresult]
      unfold acquireDirectoryWork
      rw [hwork]
      dsimp only
      split
      · rename_i hstage
        rw [hstage]
        exact ⟨rfl, .inr ⟨rfl, rfl⟩⟩
      · rename_i hstage
        rw [hstage]
        split
        · rename_i hroom
          exact ⟨rfl, .inl ⟨rfl, hroom, rfl⟩⟩
        · exact ⟨rfl, .inr ⟨rfl, rfl⟩⟩
    generalize hevent : acquire remoteIP now rateLimit _ result.1 = e
    have hplaces : Places (history ++ [e]) result.2 := by
      simp only [Places, countP_append, countP_singleton, ← hevent, isGrant, isRelease, hcount]
      obtain ⟨hgrant, hroom, htaken⟩ | ⟨hgrant, htaken⟩ := hplaces
      · exact ⟨taken + 1, hroom, htaken, by simp [hgrant, Nat.add_assoc]⟩
      · exact ⟨taken, hle, htaken, by simp [hgrant]⟩
    cases rateLimit with
    | false => exact h.same hlast (fun _ _ _ => by simp [← hevent]) hplaces
    | true => exact h.limit (limitAddress_spec _ _ now horder) hevent.symm hlast hplaces

end

end Veilmesh.Node
