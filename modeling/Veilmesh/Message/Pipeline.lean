/-
  The strict receiving pipeline (`message/pipeline.go`) and delivery at most once.

  `OpenDirect` decrypts with the ratchet, verifies the message, and asks the replay store.
  Ratchet and replay store are interfaces; here they are arbitrary machines, and a replay
  store is only known to meet its contract: a pair that it accepted is rejected as long as
  the time is not later than the expiry it was given.

  A message is verified until five minutes after its expiry, but the store is asked to
  remember it until its expiry only. Once the store has forgotten the pair the message is
  delivered again.

  * `openDirect_ok_iff`: a delivery is a prepared message the store accepts.
  * `delivered_once_iff`: every store delivers at most once exactly when no message comes
    back after the expiry of an earlier one with its sender and message identifier.
  * `delivered_twice`: a message delivered twice.
-/
import Veilmesh.Lib.Mealy
import Veilmesh.Message.Message

namespace Veilmesh.Message

open Lib Protocol Pqcrypto Identity Account List
open Time (epoch)

/-! ## The interfaces -/

structure RoutedCiphertext where
  routeTag : Bytes
  payload : Bytes
  expiresAt : Time
  deriving DecidableEq, Repr

/-- `RatchetProvider.Decrypt`: a plaintext or an error. -/
abbrev RatchetProvider (ρ : Type) := Mealy ρ RoutedCiphertext (Option Bytes)

/-- A call of `ReplayStore.Accept`, with the time it is made. -/
structure AcceptCall where
  now : Time
  senderID : Bytes
  messageID : Bytes
  expiresAt : Time
  deriving DecidableEq, Repr

/-- `ReplayStore.Accept`: whether there was no error. -/
abbrev ReplayStore (σ : Type) := Mealy σ AcceptCall Bool

/-- A call that must be rejected once `a` was accepted. -/
def AcceptCall.Repeats (b a : AcceptCall) : Prop :=
  b.senderID = a.senderID ∧ b.messageID = a.messageID ∧ b.now.ns ≤ a.expiresAt.ns

instance : DecidableRel AcceptCall.Repeats := fun _ _ =>
  inferInstanceAs (Decidable (_ ∧ _ ∧ _))

/-- The documented contract of a replay store. It may reject for other reasons. -/
def Contract {σ : Type} (replays : ReplayStore σ) : Prop :=
  ∀ pre a mid b, (pre ++ a :: (mid ++ [b])).Pairwise (fun x y => x.now.ns ≤ y.now.ns) →
    replays.out pre a = true → b.Repeats a → replays.out (pre ++ a :: mid) b = false

/-! ## The pipeline -/

inductive OpenError where
  | invalidCiphertext
  | ratchet
  | plaintextSize
  | metadata
  | message (e : MessageError)
  | replayed
  deriving DecidableEq, Repr

/-- The arguments of `OpenDirect`; of the local account only its identifier is used. -/
structure OpenCall where
  localID : Bytes
  sender : PublicProfile
  item : RoutedCiphertext
  now : Time

/-- What `OpenDirect` does with the plaintext, up to the replay store. -/
def openPlaintext (c : Primitives) (call : OpenCall) (plaintext : Bytes) :
    Except OpenError SignedMessage :=
  if plaintext.length = 0 ∨ plaintext.length > maxSignedMessageBytes then .error .plaintextSize
  else
    match decode plaintext with
    | .error e => .error (.message e)
    | .ok message =>
      if call.item.expiresAt.equal message.expiresAt = false ∨
          validAccountID call.localID = false then .error .metadata
      else
        match verifyDirect c call.sender message call.localID call.now with
        | .error e => .error (.message e)
        | .ok verified => .ok verified

/-- Whether a ciphertext is handed to the ratchet. -/
def openable (item : RoutedCiphertext) : Bool :=
  validRouteTag item.routeTag && decide (item.payload.length ≠ 0) &&
    decide (item.payload.length ≤ defaultMaxItemBytes) && !item.expiresAt.isZero

variable {ρ σ : Type}

/-- `OpenDirect` up to the replay store: the message and the ratchet afterwards. -/
def prepareDirect (c : Primitives) (ratchet : RatchetProvider ρ) (state : ρ) (call : OpenCall) :
    Except OpenError SignedMessage × ρ :=
  if openable call.item = false then (.error .invalidCiphertext, state)
  else
    match ratchet.step state call.item with
    | (none, state') => (.error .ratchet, state')
    | (some plaintext, state') => (openPlaintext c call plaintext, state')

/-- The replay check asked for a message. -/
def acceptCall (call : OpenCall) (message : SignedMessage) : AcceptCall :=
  ⟨call.now, message.senderID, message.messageID, message.expiresAt⟩

def openDirect (c : Primitives) (ratchet : RatchetProvider ρ) (replays : ReplayStore σ)
    (state : ρ × σ) (call : OpenCall) : Except OpenError SignedMessage × (ρ × σ) :=
  match prepareDirect c ratchet state.1 call with
  | (.error e, r) => (.error e, r, state.2)
  | (.ok verified, r) =>
    match replays.step state.2 (acceptCall call verified) with
    | (false, s) => (.error .replayed, r, s)
    | (true, s) => (.ok verified, r, s)

section

variable (c : Primitives) (ratchet : RatchetProvider ρ) (replays : ReplayStore σ)

/-- `OpenDirect` over a sequence of calls. -/
def pipeline : Mealy (ρ × σ) OpenCall (Except OpenError SignedMessage) where
  init := (ratchet.init, replays.init)
  step := openDirect c ratchet replays

/-- The part of the pipeline before the replay store. -/
def preparer : Mealy ρ OpenCall (Except OpenError SignedMessage) where
  init := ratchet.init
  step := prepareDirect c ratchet

/-- The calls of the replay store that calls of `OpenDirect` lead to. -/
def acceptsFrom : ρ → List OpenCall → List AcceptCall
  | _, [] => []
  | r, call :: calls =>
    match prepareDirect c ratchet r call with
    | (.error _, r') => acceptsFrom r' calls
    | (.ok message, r') => acceptCall call message :: acceptsFrom r' calls

def accepts (calls : List OpenCall) : List AcceptCall := acceptsFrom c ratchet ratchet.init calls

variable {c ratchet replays}

theorem acceptsFrom_append (r : ρ) (xs ys : List OpenCall) :
    acceptsFrom c ratchet r (xs ++ ys) = acceptsFrom c ratchet r xs ++
      acceptsFrom c ratchet ((preparer c ratchet).afterFrom r xs) ys := by
  induction xs generalizing r with
  | nil => rfl
  | cons x xs ih =>
    rw [cons_append, Mealy.afterFrom_cons]
    simp only [acceptsFrom, preparer]
    obtain ⟨e | message, r'⟩ := prepareDirect c ratchet r x
    · exact ih r'
    · rw [cons_append]
      exact congrArg _ (ih r')

/-- The store has seen exactly these calls, and the ratchet does not depend on it. -/
theorem pipeline_afterFrom (r : ρ) (s : σ) (calls : List OpenCall) :
    (pipeline c ratchet replays).afterFrom (r, s) calls =
      ((preparer c ratchet).afterFrom r calls,
        replays.afterFrom s (acceptsFrom c ratchet r calls)) := by
  induction calls generalizing r s with
  | nil => rfl
  | cons x xs ih =>
    rw [Mealy.afterFrom_cons, Mealy.afterFrom_cons]
    simp only [acceptsFrom, preparer, pipeline, openDirect]
    obtain ⟨e | message, r'⟩ := prepareDirect c ratchet r x
    · exact ih r' s
    · dsimp only
      rw [Mealy.afterFrom_cons]
      obtain ⟨ok | ok, s'⟩ := replays.step s (acceptCall x message)
      · exact ih r' s'
      · exact ih r' s'

/-- A delivery is a prepared message that the store accepts. -/
theorem openDirect_ok_iff (pre : List OpenCall) (x : OpenCall) (message : SignedMessage) :
    (pipeline c ratchet replays).out pre x = .ok message ↔
      (preparer c ratchet).out pre x = .ok message ∧
        replays.out (accepts c ratchet pre) (acceptCall x message) = true := by
  have hafter : (pipeline c ratchet replays).after pre =
      ((preparer c ratchet).after pre, replays.after (accepts c ratchet pre)) :=
    pipeline_afterFrom _ _ _
  simp only [Mealy.out, hafter]
  simp only [pipeline, openDirect, preparer]
  obtain ⟨e | verified, r'⟩ := prepareDirect c ratchet _ x
  · simp
  · dsimp only
    constructor
    · intro h
      split at h
      · cases h
      · rename_i hs
        obtain rfl := Except.ok.inj h
        exact ⟨rfl, by rw [hs]⟩
    · rintro ⟨hv, hs⟩
      obtain rfl := Except.ok.inj hv
      split
      · rename_i hf
        rw [hf] at hs
        cases hs
      · rfl

/-- Times of store calls are times of calls. -/
theorem acceptsFrom_sublist (r : ρ) (calls : List OpenCall) :
    ((acceptsFrom c ratchet r calls).map AcceptCall.now).Sublist (calls.map OpenCall.now) := by
  induction calls generalizing r with
  | nil => exact List.Sublist.refl _
  | cons x xs ih =>
    simp only [acceptsFrom]
    obtain ⟨e | message, r'⟩ := prepareDirect c ratchet r x
    · exact (ih r').cons _
    · exact (ih r').cons_cons _

/-- Calls at times that do not go back. -/
def InOrder (calls : List OpenCall) : Prop := calls.Pairwise fun x y => x.now.ns ≤ y.now.ns

variable {calls : List OpenCall}

theorem accepts_inOrder (h : InOrder calls) :
    (accepts c ratchet calls).Pairwise fun x y => x.now.ns ≤ y.now.ns := by
  have hcalls : (calls.map OpenCall.now).Pairwise fun t u => t.ns ≤ u.ns :=
    pairwise_map.mpr h
  have htimes : ((accepts c ratchet calls).map AcceptCall.now).Pairwise fun t u => t.ns ≤ u.ns :=
    hcalls.sublist (acceptsFrom_sublist _ calls)
  exact (pairwise_map (R := fun t u : Time => t.ns ≤ u.ns)).mp htimes

theorem acceptsFrom_cons_ok {r : ρ} {x : OpenCall} {message : SignedMessage}
    (h : (prepareDirect c ratchet r x).1 = .ok message) (rest : List OpenCall) :
    acceptsFrom c ratchet r (x :: rest) =
      acceptCall x message :: acceptsFrom c ratchet (prepareDirect c ratchet r x).2 rest := by
  rw [acceptsFrom]
  generalize prepareDirect c ratchet r x = p at h ⊢
  obtain ⟨v, r'⟩ := p
  obtain rfl : v = .ok message := h
  rfl

/-- The store calls around one that a prepared message leads to. -/
theorem accepts_split {pre : List OpenCall} {x : OpenCall} {message : SignedMessage}
    (h : (preparer c ratchet).out pre x = .ok message) (rest : List OpenCall) :
    accepts c ratchet (pre ++ x :: rest) = accepts c ratchet pre ++ acceptCall x message ::
      acceptsFrom c ratchet ((preparer c ratchet).after (pre ++ [x])) rest := by
  rw [accepts, acceptsFrom_append, Mealy.after_concat]
  exact congrArg _ (acceptsFrom_cons_ok h rest)

/-! ## Delivery at most once -/

def SamePair (m m' : SignedMessage) : Prop :=
  m.senderID = m'.senderID ∧ m.messageID = m'.messageID

/-- No two calls of the sequence deliver messages with one sender and one identifier. -/
def DeliversOnce (c : Primitives) (ratchet : RatchetProvider ρ) (replays : ReplayStore σ)
    (calls : List OpenCall) : Prop :=
  ∀ pre x mid y m m', pre ++ x :: (mid ++ [y]) <+: calls →
    (pipeline c ratchet replays).out pre x = .ok m →
    (pipeline c ratchet replays).out (pre ++ x :: mid) y = .ok m' → ¬ SamePair m m'

/-- No message comes back after the expiry of an earlier one with its sender and its
    identifier. -/
def NoLateRepeat (c : Primitives) (ratchet : RatchetProvider ρ) (calls : List OpenCall) : Prop :=
  ∀ pre x mid y m m', pre ++ x :: (mid ++ [y]) <+: calls →
    (preparer c ratchet).out pre x = .ok m →
    (preparer c ratchet).out (pre ++ x :: mid) y = .ok m' → SamePair m m' →
    y.now.ns ≤ m.expiresAt.ns

/-- While the contract binds the store, a pair is delivered once. -/
theorem deliversOnce_of_noLateRepeat (horder : InOrder calls)
    (hsafe : NoLateRepeat c ratchet calls) (hcontract : Contract replays) :
    DeliversOnce c ratchet replays calls := by
  intro pre x mid y m m' hpre hx hy hsame
  obtain ⟨hpx, hax⟩ := (openDirect_ok_iff _ _ _).mp hx
  obtain ⟨hpy, hay⟩ := (openDirect_ok_iff _ _ _).mp hy
  have hnow := hsafe pre x mid y m m' hpre hpx hpy hsame
  have hord := @accepts_inOrder ρ c ratchet _ (horder.sublist hpre.sublist)
  rw [accepts_split hpx] at hay hord
  -- the store call for `y` is the last one
  have hlast : acceptsFrom c ratchet ((preparer c ratchet).after (pre ++ [x])) (mid ++ [y]) =
      acceptsFrom c ratchet ((preparer c ratchet).after (pre ++ [x])) mid ++ [acceptCall y m'] := by
    have hstate : (preparer c ratchet).afterFrom ((preparer c ratchet).after (pre ++ [x])) mid =
        (preparer c ratchet).after (pre ++ x :: mid) := by
      rw [← Mealy.after_append, append_assoc, singleton_append]
    rw [acceptsFrom_append, hstate, acceptsFrom_cons_ok hpy]
    rfl
  rw [hlast] at hord
  have hreject := hcontract _ _ _ _ hord hax ⟨hsame.1.symm, hsame.2.symm, hnow⟩
  rw [hreject] at hay
  cases hay

/-! ### A store that forgets what it may forget -/

/-- Whether a new call repeats one of those remembered. -/
def remembered (journal : List AcceptCall) (b : AcceptCall) : Bool :=
  journal.any fun a => decide (b.Repeats a)

/-- A replay store with a journal of what it accepted; it ignores entries past their
    expiry, and the calls whose number `allow` excludes fail. -/
def journalStore (allow : Nat → Bool) : ReplayStore (List AcceptCall × Nat) where
  init := ([], 0)
  step s b :=
    if allow s.2 && !remembered s.1 b then (true, b :: s.1, s.2 + 1) else (false, s.1, s.2 + 1)

theorem journalStore_step_cases (allow : Nat → Bool) (s : List AcceptCall × Nat) (b : AcceptCall) :
    (allow s.2 = true ∧ remembered s.1 b = false ∧
      (journalStore allow).step s b = (true, b :: s.1, s.2 + 1)) ∨
    ((allow s.2 = false ∨ remembered s.1 b = true) ∧
      (journalStore allow).step s b = (false, s.1, s.2 + 1)) := by
  simp only [journalStore]
  cases allow s.2 <;> cases remembered s.1 b <;> simp

/-- Journal entries stay. -/
theorem journal_mem_afterFrom {allow : Nat → Bool} {s : List AcceptCall × Nat} {a : AcceptCall}
    (h : a ∈ s.1) (calls : List AcceptCall) : a ∈ ((journalStore allow).afterFrom s calls).1 := by
  refine Mealy.afterFrom_invariant (journalStore allow) (I := fun s => a ∈ s.1) ?_ h calls
  intro s b hs
  obtain ⟨-, -, hstep⟩ | ⟨-, hstep⟩ := journalStore_step_cases allow s b
  · rw [hstep]
    exact mem_cons_of_mem _ hs
  · rw [hstep]
    exact hs

theorem journalStore_contract (allow : Nat → Bool) : Contract (journalStore allow) := by
  intro pre a mid b _ ha hrep
  have hmem : a ∈ ((journalStore allow).after (pre ++ a :: mid)).1 := by
    rw [Mealy.after_append, Mealy.afterFrom_cons]
    refine journal_mem_afterFrom ?_ mid
    obtain ⟨-, -, hstep⟩ | ⟨-, hstep⟩ := journalStore_step_cases allow ((journalStore allow).after pre) a
    · rw [hstep]
      exact mem_cons_self
    · rw [Mealy.out, hstep] at ha
      cases ha
  obtain ⟨-, hnew, -⟩ | ⟨-, hstep⟩ :=
    journalStore_step_cases allow ((journalStore allow).after (pre ++ a :: mid)) b
  · have hany : remembered ((journalStore allow).after (pre ++ a :: mid)).1 b = true :=
      any_eq_true.mpr ⟨a, hmem, decide_eq_true hrep⟩
    rw [hnew] at hany
    cases hany
  · rw [Mealy.out, hstep]

/-- Calls that are not admitted leave the journal alone. -/
theorem journal_quiet {allow : Nat → Bool} {s : List AcceptCall × Nat} (calls : List AcceptCall)
    (h : ∀ k, s.2 ≤ k → k < s.2 + calls.length → allow k = false) :
    (journalStore allow).afterFrom s calls = (s.1, s.2 + calls.length) := by
  induction calls generalizing s with
  | nil => rfl
  | cons b calls ih =>
    rw [length_cons] at h ⊢
    rw [Mealy.afterFrom_cons]
    obtain ⟨hallow, -, -⟩ | ⟨-, hstep⟩ := journalStore_step_cases allow s b
    · rw [h s.2 le_rfl (by omega)] at hallow
      cases hallow
    · rw [hstep, ih fun k h1 h2 => h k (by dsimp only at h1; omega) (by dsimp only at h2; omega)]
      simp only [Prod.mk.injEq, true_and]
      omega

/-- The store that admits two calls only accepts both, unless the second repeats the first. -/
theorem journalStore_accepts_two (pre : List AcceptCall) (a : AcceptCall) (mid : List AcceptCall)
    (b : AcceptCall) (h : ¬ b.Repeats a) :
    (journalStore fun k => k == pre.length || k == pre.length + 1 + mid.length).out pre a = true ∧
    (journalStore fun k => k == pre.length || k == pre.length + 1 + mid.length).out
      (pre ++ a :: mid) b = true := by
  set allow : Nat → Bool := fun k => k == pre.length || k == pre.length + 1 + mid.length with hadm
  have hpre : (journalStore allow).after pre = ([], pre.length) := by
    rw [Mealy.after, journal_quiet]
    · simp [journalStore]
    · intro k _ hk
      simp only [journalStore, hadm] at hk ⊢
      simp
      omega
  have hstep : (journalStore allow).step ([], pre.length) a = (true, [a], pre.length + 1) := by
    simp [journalStore, hadm, remembered]
  have hmid : (journalStore allow).after (pre ++ a :: mid) = ([a], pre.length + 1 + mid.length) := by
    rw [Mealy.after_append, Mealy.afterFrom_cons, hpre, hstep, journal_quiet]
    intro k h1 h2
    dsimp only at h1 h2
    simp only [hadm]
    simp
    omega
  constructor
  · rw [Mealy.out, hpre, hstep]
  · rw [Mealy.out, hmid]
    simp [journalStore, hadm, remembered, h]

/-- A message that comes back too late is delivered again by some store. -/
theorem noLateRepeat_of_deliversOnce (h : ∀ (σ : Type) (replays : ReplayStore σ), Contract replays →
      DeliversOnce c ratchet replays calls) : NoLateRepeat c ratchet calls := by
  intro pre x mid y m m' hpre hpx hpy hsame
  by_contra hlate
  have hnew : ¬ (acceptCall y m').Repeats (acceptCall x m) := fun hrep => hlate hrep.2.2
  obtain ⟨hax, hay⟩ := journalStore_accepts_two (accepts c ratchet pre) (acceptCall x m)
    (acceptsFrom c ratchet ((preparer c ratchet).after (pre ++ [x])) mid) (acceptCall y m') hnew
  rw [← accepts_split hpx] at hay
  exact h _ _ (journalStore_contract _) pre x mid y m m' hpre
    ((openDirect_ok_iff _ _ _).mpr ⟨hpx, hax⟩) ((openDirect_ok_iff _ _ _).mpr ⟨hpy, hay⟩) hsame

end

/-- Every replay store that meets its contract delivers each pair at most once, exactly
    when no message comes back after the expiry of an earlier one with its pair. -/
theorem delivered_once_iff {ρ : Type} (c : Primitives) (ratchet : RatchetProvider ρ)
    (calls : List OpenCall) (horder : InOrder calls) :
    (∀ (σ : Type) (replays : ReplayStore σ), Contract replays →
      DeliversOnce c ratchet replays calls) ↔ NoLateRepeat c ratchet calls :=
  ⟨noLateRepeat_of_deliversOnce, fun hsafe _ _ hcontract =>
    deliversOnce_of_noLateRepeat horder hsafe hcontract⟩

/-! ## A message delivered twice -/

/-- The ciphertext in its envelope. -/
def sampleCiphertext : RoutedCiphertext :=
  ⟨base64Encode base64UrlAlphabet false (sampleBytes 32 0), [0], Time.epoch.add fixedItemRetention⟩

/-- A ciphertext that the ratchet always decrypts to one message. -/
theorem prepared_always {c : Primitives} {plaintext : Bytes} {call : OpenCall} {m : SignedMessage}
    (hopen : openable call.item = true) (hdec : decode plaintext = .ok m)
    (hexp : call.item.expiresAt.equal m.expiresAt = true) (hlocal : validAccountID call.localID = true)
    (hver : verifyDirect c call.sender m call.localID call.now = .ok m) (pre : List OpenCall) :
    (preparer c (⟨(), fun _ _ => (some plaintext, ())⟩ : RatchetProvider Unit)).out pre call =
      .ok m := by
  have hsize : ¬ (plaintext.length = 0 ∨ plaintext.length > maxSignedMessageBytes) := by
    intro h
    rw [decode, if_pos h] at hdec
    cases hdec
  simp only [Mealy.out, preparer, prepareDirect, hopen, openPlaintext, if_neg hsize, hdec, hexp,
    hlocal, hver, Bool.true_eq_false, or_self, if_false]

/-- A message and a ratchet that decrypts it whenever it is asked to. -/
theorem sample_message :
    ∃ (c : Primitives) (ratchet : RatchetProvider Unit) (call : Time → OpenCall) (m : SignedMessage),
      (∀ t, (call t).now = t) ∧ m.createdAt.ns < m.expiresAt.ns ∧
      ∀ pre t, m.createdAt.ns ≤ t.ns → t.ns ≤ m.expiresAt.ns + 5 * minute →
        (preparer c ratchet).out pre (call t) = .ok m := by
  obtain ⟨account, recipient, huse, hupd, hvalid, hne⟩ := sample_sender
  have hcons := huse.consistent
  obtain ⟨sig, data, hnew, -, hdec⟩ := @newDirect_ok _ _ hcons
    (verifyDevice_kem samplePrimitives_kemSized hcons.certified).le recipient [0] (sampleBytes 32 0)
    epoch fixedItemRetention hvalid (plain_of_valid (by decide) hvalid) hne (by decide)
    (by decide) (by decide) (by decide) le_rfl (length_sampleBytes 32 0) (by decide) (by decide)
  refine ⟨samplePrimitives, ⟨(), fun _ _ => (some data, ())⟩,
    fun t => ⟨recipient, account.profile, sampleCiphertext, t⟩, _, fun t => rfl,
    (by decide : epoch.ns < (epoch.add fixedItemRetention).ns), fun pre t h1 h2 =>
      prepared_always (by decide : openable sampleCiphertext = true) hdec rfl hvalid ?_ pre⟩
  have hfive : (0 : Int) ≤ 5 * minute := by decide
  have hlow : epoch.ns ≤ t.ns + 5 * minute := h1.trans (Int.le_add_of_nonneg_right hfive)
  refine newDirect_verifies hcons hnew (length_sampleBytes 32 0) (by decide : epoch.isZero = false)
    (by decide : (epoch.add fixedItemRetention).isZero = false)
    (by decide : epoch.ns < (epoch.add fixedItemRetention).ns) ?_ hlow h2
  rw [hupd]
  exact hlow

/-- The pipeline does not deliver at most once: a message comes back a minute after its
    expiry, when the store has forgotten it. -/
theorem delivered_twice :
    ¬ ∀ (ρ σ : Type) (c : Primitives) (ratchet : RatchetProvider ρ) (replays : ReplayStore σ)
      (calls : List OpenCall), Contract replays → InOrder calls →
        DeliversOnce c ratchet replays calls := by
  intro hclaim
  obtain ⟨c, ratchet, call, m, hnow, hlife, hprep⟩ := sample_message
  have hmin : @Eq Int minute 60000000000 := by decide
  have hns : (m.expiresAt.add minute).ns = m.expiresAt.ns + minute := rfl
  have horder : InOrder [call m.createdAt, call (m.expiresAt.add minute)] := by
    simp only [InOrder, List.pairwise_cons, List.mem_singleton, forall_eq, hnow]
    exact ⟨by omega, by simp⟩
  have hlate := noLateRepeat_of_deliversOnce
    (fun σ replays hc => hclaim Unit σ c ratchet replays _ hc horder) [] (call m.createdAt) []
    (call (m.expiresAt.add minute)) m m (List.prefix_refl _) (hprep [] _ le_rfl (by omega))
    (hprep _ _ (by omega) (by omega)) ⟨rfl, rfl⟩
  rw [hnow] at hlate
  omega

/-- Presented twice within its lifetime, the sample message is delivered once. -/
theorem delivered_once_sample :
    ∃ (c : Primitives) (ratchet : RatchetProvider Unit) (x y : OpenCall) (m : SignedMessage),
      (preparer c ratchet).out [] x = .ok m ∧ (preparer c ratchet).out [x] y = .ok m ∧
      ∀ (σ : Type) (replays : ReplayStore σ), Contract replays →
        DeliversOnce c ratchet replays [x, y] := by
  obtain ⟨c, ratchet, call, m, hnow, hlife, hprep⟩ := sample_message
  have hmin : @Eq Int minute 60000000000 := by decide
  have hin : ∀ pre z, z ∈ [call m.createdAt, call m.expiresAt] →
      (preparer c ratchet).out pre z = .ok m ∧ z.now.ns ≤ m.expiresAt.ns := by
    intro pre z hz
    simp only [List.mem_cons, List.not_mem_nil, or_false] at hz
    rcases hz with rfl | rfl
    · exact ⟨hprep _ _ le_rfl (by omega), by rw [hnow]; omega⟩
    · exact ⟨hprep _ _ (by omega) (by omega), by rw [hnow]⟩
  have horder : InOrder [call m.createdAt, call m.expiresAt] := by
    simp only [InOrder, List.pairwise_cons, List.mem_singleton, forall_eq, hnow]
    exact ⟨by omega, by simp⟩
  refine ⟨c, ratchet, _, _, m, (hin [] _ (by simp)).1, (hin _ _ (by simp)).1,
    (delivered_once_iff c ratchet _ horder).mpr ?_⟩
  intro pre x mid y m1 m2 hpre hx hy _
  have hmem := hpre.subset
  obtain ⟨hx', -⟩ := hin pre x (hmem (by simp))
  obtain rfl := Except.ok.inj (hx'.symm.trans hx)
  exact (hin (pre ++ x :: mid) y (hmem (by simp))).2

end Veilmesh.Message
