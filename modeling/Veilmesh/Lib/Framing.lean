/-
  Encodings that say where they end.

  `Framed P R enc`: if the encodings of two values in `P` start two equal strings, then the
  values are related by `R` and what follows them is the same. Such encodings can be written
  one after the other, so a format is unambiguous if its fields are:

  * `Framed.append`, `Framed.comap`: fields in a row.
  * `Framed.terminated`: text up to a byte that does not occur in it.
  * `Framed.sized`: a length in front of a framed encoding does no harm, whatever it says.
  * `Framed.counted`: a number of elements, and the elements.
-/
import Veilmesh.Lib.Bytes

namespace Veilmesh.Lib

open List

/-- Values in `P` are told apart, up to `R`, by the start of a string. -/
def Framed {α : Type} (P : α → Prop) (R : α → α → Prop) (enc : α → Bytes) : Prop :=
  ∀ ⦃a b⦄, P a → P b → ∀ ⦃x y : Bytes⦄, enc a ++ x = enc b ++ y → R a b ∧ x = y

namespace Framed

variable {α β : Type} {P Q : α → Prop} {R S : α → α → Prop} {f g : α → Bytes}

/-- Nothing needs to follow. -/
theorem inj (h : Framed P R f) {a b : α} (ha : P a) (hb : P b) (heq : f a = f b) : R a b :=
  (@h a b ha hb [] [] (by rw [heq])).1

theorem comap (h : Framed P R f) (k : β → α) :
    Framed (fun b => P (k b)) (fun b b' => R (k b) (k b')) fun b => f (k b) :=
  fun _ _ ha hb _ _ heq => h ha hb heq

theorem mono (h : Framed P R f) (hP : ∀ a, Q a → P a) (hR : ∀ a b, R a b → S a b) :
    Framed Q S f := by
  intro a b ha hb x y heq
  obtain ⟨hr, hxy⟩ := h (hP a ha) (hP b hb) heq
  exact ⟨hR a b hr, hxy⟩

/-- One encoding after the other. -/
theorem append (hf : Framed P R f) (hg : Framed Q S g) :
    Framed (fun a => P a ∧ Q a) (fun a b => R a b ∧ S a b) fun a => f a ++ g a := by
  intro a b ha hb x y heq
  rw [append_assoc, append_assoc] at heq
  obtain ⟨hr, heq⟩ := hf ha.1 hb.1 heq
  obtain ⟨hs, hxy⟩ := hg ha.2 hb.2 heq
  exact ⟨⟨hr, hs⟩, hxy⟩

/-- An encoding of fixed width. -/
theorem of_length {n : Nat} (hlen : ∀ a, (f a).length = n)
    (h : ∀ a b, P a → P b → f a = f b → R a b) : Framed P R f := by
  intro a b ha hb x y heq
  obtain ⟨hfield, hxy⟩ := append_inj heq ((hlen a).trans (hlen b).symm)
  exact ⟨h a b ha hb hfield, hxy⟩

theorem byte : Framed (fun _ => True) Eq fun b : UInt8 => [b] :=
  of_length (fun _ => rfl) fun _ _ _ _ h => (cons.inj h).1

theorem bigEndian (k : Nat) : Framed (fun n => n < 256 ^ k) Eq (toBE k) :=
  of_length (length_toBE k) fun _ _ hm hn h => toBE_inj hm hn h

/-- Text that ends with a byte it does not contain. -/
theorem terminated (z : UInt8) : Framed (fun d : Bytes => z ∉ d) Eq fun d => d ++ [z] := by
  intro d d' hd hd' x y heq
  rw [append_assoc, append_assoc] at heq
  change d ++ z :: x = d' ++ z :: y at heq
  induction d generalizing d' with
  | nil =>
    cases d' with
    | nil => exact ⟨rfl, (cons.inj heq).2⟩
    | cons b d' => exact absurd ((cons.inj heq).1 ▸ mem_cons_self) hd'
  | cons a d ih =>
    cases d' with
    | nil => exact absurd ((cons.inj heq).1 ▸ mem_cons_self) hd
    | cons b d' =>
      obtain ⟨rfl, htail⟩ := cons.inj heq
      obtain ⟨rfl, hxy⟩ := ih (fun hz => hd (mem_cons_of_mem _ hz))
        (fun hz => hd' (mem_cons_of_mem _ hz)) htail
      exact ⟨rfl, hxy⟩

/-- A field of fixed width in front tells nothing, and changes nothing. -/
theorem sized (h : Framed P R f) (k : Nat) (size : α → Nat) :
    Framed P R fun a => toBE k (size a) ++ f a := by
  intro a b ha hb x y heq
  rw [append_assoc, append_assoc] at heq
  exact h ha hb (append_inj heq (by rw [length_toBE, length_toBE])).2

/-- As many elements as there are on the other side, one after the other. -/
theorem flatMap (h : Framed P R f) {as bs : List α} (hlen : as.length = bs.length)
    (has : ∀ a ∈ as, P a) (hbs : ∀ b ∈ bs, P b) {x y : Bytes}
    (heq : as.flatMap f ++ x = bs.flatMap f ++ y) : Forall₂ R as bs ∧ x = y := by
  induction as generalizing bs with
  | nil =>
    obtain rfl := eq_nil_of_length_eq_zero hlen.symm
    exact ⟨.nil, heq⟩
  | cons a as ih =>
    obtain ⟨b, bs, rfl⟩ := exists_cons_of_length_eq_add_one hlen.symm
    rw [flatMap_cons, flatMap_cons, append_assoc, append_assoc] at heq
    obtain ⟨hr, heq⟩ := h (has a mem_cons_self) (hbs b mem_cons_self) heq
    obtain ⟨hrest, hxy⟩ := ih (Nat.succ.inj hlen) (fun c hc => has c (mem_cons_of_mem _ hc))
      (fun c hc => hbs c (mem_cons_of_mem _ hc)) heq
    exact ⟨.cons hr hrest, hxy⟩

/-- A list with its length in front. -/
theorem counted (h : Framed P R f) (k : Nat) :
    Framed (fun as => as.length < 256 ^ k ∧ ∀ a ∈ as, P a) (Forall₂ R)
      fun as => toBE k as.length ++ as.flatMap f := by
  intro as bs has hbs x y heq
  rw [append_assoc, append_assoc] at heq
  obtain ⟨hlen, heq⟩ := bigEndian k has.1 hbs.1 heq
  exact h.flatMap hlen has.2 hbs.2 heq

end Framed

end Veilmesh.Lib
