import Mathlib.Data.Finset.Max
import Mathlib.Data.List.Basic

/-!
# Networks — prefixes of an address space, and what sees no more than prefixes

A `Network w` is a prefix of the addresses of `w` bits.  A function `Sees` a list of networks when it
cannot tell two addresses apart that lie in the same of them.  Such a function is known everywhere once
it is known where one of the networks begins or has just ended (`Sees.forall_of_breakpoints`): finitely
many addresses stand for all of them.
-/

/-- The addresses that have the first `prefixlen` of `w` bits in common with `address`. -/
structure Network (w : ℕ) where
  address : ℕ
  prefixlen : ℕ
  deriving DecidableEq, Repr

namespace Network

variable {w : ℕ} {α : Type*}

/-- The number of addresses of the network. -/
def size (N : Network w) : ℕ := 2 ^ (w - N.prefixlen)

def contains (N : Network w) (ip : ℕ) : Bool := ip / N.size = N.address / N.size

/-- The first address. -/
def first (N : Network w) : ℕ := N.address / N.size * N.size

/-- The network of one address. -/
def host (w ip : ℕ) : Network w := ⟨ip, w⟩

theorem contains_iff {N : Network w} {ip : ℕ} :
    N.contains ip = true ↔ N.first ≤ ip ∧ ip < N.first + N.size := by
  have hpos : 0 < N.size := Nat.two_pow_pos _
  unfold contains first
  rw [decide_eq_true_iff, Nat.div_eq_iff hpos]
  omega

@[simp] theorem host_contains (a ip : ℕ) : (host w a).contains ip = decide (ip = a) := by
  simp [contains, host, size]

/-! ### Breakpoints -/

/-- Where a network of the list begins or has just ended, and the first address of all. -/
def breakpoints (L : List (Network w)) : List ℕ :=
  0 :: L.flatMap fun N => [N.first, N.first + N.size]

/-- Every address lies in the same networks as the last breakpoint before it. -/
theorem exists_breakpoint (L : List (Network w)) (ip : ℕ) :
    ∃ r ∈ breakpoints L, ∀ N ∈ L, N.contains r = N.contains ip := by
  have hne : ((breakpoints L).toFinset.filter (· ≤ ip)).Nonempty :=
    ⟨0, by simp [breakpoints]⟩
  obtain ⟨r, hr, hmax⟩ := Finset.exists_max_image _ id hne
  rw [Finset.mem_filter, List.mem_toFinset] at hr
  have hlast : ∀ b ∈ breakpoints L, b ≤ ip → b ≤ r := fun b hb hle =>
    hmax b (Finset.mem_filter.mpr ⟨List.mem_toFinset.mpr hb, hle⟩)
  refine ⟨r, hr.1, fun N hN => ?_⟩
  have hmem (b : ℕ) (hb : b ∈ [N.first, N.first + N.size]) : b ∈ breakpoints L :=
    List.mem_cons_of_mem _ (List.mem_flatMap.mpr ⟨N, hN, hb⟩)
  have hfirst := hlast N.first (hmem _ (by simp))
  have hend := hlast (N.first + N.size) (hmem _ (by simp))
  rw [Bool.eq_iff_iff, contains_iff, contains_iff]
  omega

/-! ### Functions that see networks -/

/-- `f` is the same for addresses that lie in the same networks of `L`. -/
def Sees (L : List (Network w)) (f : ℕ → α) : Prop :=
  ∀ a b, (∀ N ∈ L, N.contains a = N.contains b) → f a = f b

variable {L : List (Network w)}

theorem Sees.const (a : α) : Sees L fun _ => a := fun _ _ _ => rfl

theorem Sees.contains {N : Network w} (h : N ∈ L) : Sees L N.contains := fun _ _ hab => hab N h

theorem Sees.eq {a : ℕ} (h : host w a ∈ L) : Sees L fun ip => decide (ip = a) := by
  intro b c hbc
  have hhost := hbc _ h
  rwa [host_contains, host_contains] at hhost

section Bool

variable {P Q : ℕ → Bool}

theorem Sees.not (hP : Sees L P) : Sees L fun ip => !P ip := fun a b hab => congrArg _ (hP a b hab)

theorem Sees.and (hP : Sees L P) (hQ : Sees L Q) : Sees L fun ip => P ip && Q ip :=
  fun a b hab => congrArg₂ _ (hP a b hab) (hQ a b hab)

theorem Sees.or (hP : Sees L P) (hQ : Sees L Q) : Sees L fun ip => P ip || Q ip :=
  fun a b hab => congrArg₂ _ (hP a b hab) (hQ a b hab)

theorem Sees.beq (hP : Sees L P) (hQ : Sees L Q) : Sees L fun ip => P ip == Q ip :=
  fun a b hab => congrArg₂ _ (hP a b hab) (hQ a b hab)

theorem Sees.ite {f g : ℕ → Bool} (hP : Sees L P) (hf : Sees L f) (hg : Sees L g) :
    Sees L fun ip => if P ip then f ip else g ip := by
  intro a b hab
  simp only [hP a b hab, hf a b hab, hg a b hab]

end Bool

theorem Sees.any {κ : Type*} {ks : List κ} {P : κ → ℕ → Bool} (h : ∀ k ∈ ks, Sees L (P k)) :
    Sees L fun ip => ks.any fun k => P k ip := by
  intro a b hab
  induction ks with
  | nil => rfl
  | cons k ks ih =>
    have hk := h k List.mem_cons_self a b hab
    simp only [List.any_cons, hk, ih fun k' hk' => h k' (List.mem_cons_of_mem _ hk')]

theorem Sees.all {κ : Type*} {ks : List κ} {P : κ → ℕ → Bool} (h : ∀ k ∈ ks, Sees L (P k)) :
    Sees L fun ip => ks.all fun k => P k ip := by
  intro a b hab
  induction ks with
  | nil => rfl
  | cons k ks ih =>
    have hk := h k List.mem_cons_self a b hab
    simp only [List.all_cons, hk, ih fun k' hk' => h k' (List.mem_cons_of_mem _ hk')]

/-- **Finitely many addresses stand for all.** -/
theorem Sees.forall_of_breakpoints {P : ℕ → Bool} (hP : Sees L P)
    (h : (breakpoints L).all P = true) (ip : ℕ) : P ip = true := by
  obtain ⟨r, hr, heq⟩ := exists_breakpoint L ip
  rw [← hP r ip heq]
  exact List.all_eq_true.mp h r hr

/-- The same for the addresses of `w` bits alone, where the list has the network of all of them. -/
theorem Sees.forall_lt {P : ℕ → Bool} (hP : Sees L P) (hall : ⟨0, 0⟩ ∈ L)
    (h : ((breakpoints L).all fun ip => !(⟨0, 0⟩ : Network w).contains ip || P ip) = true) {ip : ℕ}
    (hip : ip < 2 ^ w) : P ip = true := by
  have hin : (⟨0, 0⟩ : Network w).contains ip = true := by
    rw [contains_iff]
    simpa [first, size] using hip
  have hor := Sees.forall_of_breakpoints ((Sees.contains hall).not.or hP) h ip
  simpa [hin] using hor

end Network
