import Mathlib.Tactic

set_option autoImplicit false

/-! # Sorted lists of intervals

A list of things that each occupy a half-open interval `[lo v, hi v)`, in order and disjoint, as
an address space keeps its mappings or a file its extents. The first part says what such a list
covers: a point belongs to at most one interval, and a search from the front finds it. The
second part has the rules of a first-fit scan for a gap: when the scan may accept, skip or jump,
each as a statement about the positions that remain.
-/

namespace Interval

section Sorted

variable {α ι : Type} [LinearOrder α] (lo hi : ι → α)

/-- The point `x` is in the interval of `v`. -/
def Has (v : ι) (x : α) : Prop := lo v ≤ x ∧ x < hi v

instance (v : ι) (x : α) : Decidable (Has lo hi v x) := inferInstanceAs (Decidable (_ ∧ _))

/-- The interval of `v` does not meet `[a, b)`. -/
def Apart (v : ι) (a b : α) : Prop := b ≤ lo v ∨ hi v ≤ a

/-- No interval of the list meets `[a, b)`. -/
def Free (l : List ι) (a b : α) : Prop := ∀ v ∈ l, Apart lo hi v a b

/-- Non-empty intervals, each ending before the next one starts. -/
structure Sorted (l : List ι) : Prop where
  nonempty : ∀ v ∈ l, lo v < hi v
  ordered : l.Pairwise (fun v w => hi v ≤ lo w)

/-- The first interval of the list that has `x`. -/
def at? (l : List ι) (x : α) : Option ι := l.find? (fun v => decide (Has lo hi v x))

variable {lo hi} {v w : ι} {l : List ι} {a b x : α}

theorem sorted_cons :
    Sorted lo hi (v :: l) ↔ lo v < hi v ∧ (∀ w ∈ l, hi v ≤ lo w) ∧ Sorted lo hi l := by
  constructor
  · rintro ⟨h1, h2⟩
    obtain ⟨h3, h4⟩ := List.forall_mem_cons.mp h1
    obtain ⟨h5, h6⟩ := List.pairwise_cons.mp h2
    exact ⟨h3, h5, h4, h6⟩
  · rintro ⟨h3, h5, h4, h6⟩
    exact ⟨List.forall_mem_cons.mpr ⟨h3, h4⟩, List.pairwise_cons.mpr ⟨h5, h6⟩⟩

theorem free_nil (a b : α) : Free lo hi [] a b := by simp [Free]

theorem free_cons : Free lo hi (v :: l) a b ↔ Apart lo hi v a b ∧ Free lo hi l a b :=
  List.forall_mem_cons

/-- What ends before the first interval starts meets none of them. -/
theorem Sorted.free_of_le (h : Sorted lo hi (v :: l)) (hb : b ≤ lo v) :
    Free lo hi (v :: l) a b := by
  obtain ⟨h1, h2, -⟩ := sorted_cons.mp h
  exact free_cons.mpr ⟨Or.inl hb, fun w hw => Or.inl (hb.trans (h1.le.trans (h2 w hw)))⟩

/-- Two intervals of the list with a common point are one. -/
theorem Sorted.eq_of_has (h : Sorted lo hi l) (hv : v ∈ l) (hw : w ∈ l) (hxv : Has lo hi v x)
    (hxw : Has lo hi w x) : v = w := by
  induction l with
  | nil => exact absurd hv (by simp)
  | cons u l ih =>
      obtain ⟨-, h2, h3⟩ := sorted_cons.mp h
      rcases List.mem_cons.mp hv with rfl | hv' <;> rcases List.mem_cons.mp hw with rfl | hw'
      · rfl
      · exact absurd (hxv.2.trans_le ((h2 w hw').trans hxw.1)) (lt_irrefl x)
      · exact absurd (hxw.2.trans_le ((h2 v hv').trans hxv.1)) (lt_irrefl x)
      · exact ih h3 hv' hw'

theorem at?_cons (v : ι) (l : List ι) (x : α) :
    at? lo hi (v :: l) x = if Has lo hi v x then some v else at? lo hi l x := by
  unfold at?
  rw [List.find?_cons]
  by_cases h : Has lo hi v x <;> simp [h]

theorem at?_append (l l' : List ι) (x : α) :
    at? lo hi (l ++ l') x = (at? lo hi l x).or (at? lo hi l' x) := List.find?_append

theorem at?_eq_none_iff : at? lo hi l x = none ↔ ∀ v ∈ l, ¬ Has lo hi v x := by
  unfold at?
  simp [List.find?_eq_none]

/-- The search finds the interval a point belongs to. -/
theorem Sorted.at?_eq_some_iff (h : Sorted lo hi l) :
    at? lo hi l x = some v ↔ v ∈ l ∧ Has lo hi v x := by
  constructor
  · intro he
    exact ⟨List.mem_of_find?_eq_some he, by simpa using List.find?_some he⟩
  · rintro ⟨hv, hx⟩
    cases hw : at? lo hi l x with
    | none => exact absurd hx (at?_eq_none_iff.mp hw v hv)
    | some w =>
        have hxw : Has lo hi w x := by simpa using List.find?_some hw
        rw [h.eq_of_has hv (List.mem_of_find?_eq_some hw) hx hxw]

/-- The first interval of the list is replaced by pieces: with what is left of the rest, the
datum `g` at `x` is as before outside `D`, and inside there is nothing. -/
theorem map_at?_replace {β : Type} {g : ι → β} {D : Prop} [Decidable D] {ps l' : List ι}
    (hp : ∀ w ∈ ps, Has lo hi w x → ¬ D ∧ Has lo hi v x ∧ g w = g v)
    (hv : Has lo hi v x → ¬ D → ∃ w ∈ ps, Has lo hi w x)
    (hl : (at? lo hi l' x).map g = if D then none else (at? lo hi l x).map g) :
    (at? lo hi (ps ++ l') x).map g = if D then none else (at? lo hi (v :: l) x).map g := by
  rw [at?_append, at?_cons]
  cases hw : at? lo hi ps x with
  | some w =>
      have hx : Has lo hi w x := by simpa using List.find?_some hw
      obtain ⟨hd, hvx, hg⟩ := hp w (List.mem_of_find?_eq_some hw) hx
      rw [if_neg hd, if_pos hvx, Option.some_or, Option.map_some, Option.map_some, hg]
  | none =>
      rw [Option.none_or, hl]
      by_cases hd : D
      · rw [if_pos hd, if_pos hd]
      · rw [if_neg hd, if_neg hd, if_neg (fun hvx => ?_)]
        obtain ⟨w, hmem, hx⟩ := hv hvx hd
        exact at?_eq_none_iff.mp hw w hmem hx

end Sorted

/-! ## First fit -/

section FirstFit

variable {ι : Type} (lo hi : ι → Nat) (d len limit : Nat)

/-- A block of `len` points can be put at `a`: aligned to `d`, below `limit`, and apart from
every interval. -/
def Fits (l : List ι) (a : Nat) : Prop := d ∣ a ∧ a + len ≤ limit ∧ Free lo hi l a (a + len)

/-- The outcome `r` of a scan from `cur` on: the least position at which the block fits, or
`none` when there is none. -/
def FirstFit (l : List ι) (cur : Nat) : Option Nat → Prop
  | some r => IsLeast {a | cur ≤ a ∧ Fits lo hi d len limit l a} r
  | none => ∀ a, cur ≤ a → ¬ Fits lo hi d len limit l a

variable {lo hi d len limit} {v : ι} {l : List ι} {cur r : Nat} {o : Option Nat}

/-- Scans with the same positions left have the same outcome. -/
theorem FirstFit.congr {l' : List ι} {cur' : Nat} (h : FirstFit lo hi d len limit l cur o)
    (hc : ∀ a, (cur' ≤ a ∧ Fits lo hi d len limit l' a)
      ↔ (cur ≤ a ∧ Fits lo hi d len limit l a)) :
    FirstFit lo hi d len limit l' cur' o := by
  cases o with
  | some r =>
      have : {a | cur' ≤ a ∧ Fits lo hi d len limit l' a}
          = {a | cur ≤ a ∧ Fits lo hi d len limit l a} := Set.ext hc
      show IsLeast _ r
      rw [this]
      exact h
  | none => exact fun a ha hf => h a ((hc a).mp ⟨ha, hf⟩).1 ((hc a).mp ⟨ha, hf⟩).2

/-- An interval that ends before the scan's position does not matter. -/
theorem FirstFit.skip (h : FirstFit lo hi d len limit l cur o) (hv : hi v ≤ cur) :
    FirstFit lo hi d len limit (v :: l) cur o := by
  refine h.congr (fun a => and_congr_right (fun ha => ?_))
  unfold Fits
  rw [free_cons]
  have : Apart lo hi v a (a + len) := Or.inr (hv.trans ha)
  simp [this]

/-- An interval in the way of the block at `cur` is in the way up to its end. -/
theorem FirstFit.jump (h : FirstFit lo hi d len limit l (hi v) o) (hend : cur ≤ hi v)
    (hgap : lo v < cur + len) : FirstFit lo hi d len limit (v :: l) cur o := by
  refine (h.skip le_rfl).congr (fun a => ?_)
  constructor
  · rintro ⟨ha, hf⟩
    refine ⟨?_, hf⟩
    rcases (free_cons.mp hf.2.2).1 with hle | hle
    · omega
    · exact hle
  · rintro ⟨ha, hf⟩
    exact ⟨hend.trans ha, hf⟩

/-- The scan may stop where the block fits. -/
theorem FirstFit.accept (h : Fits lo hi d len limit l cur) :
    FirstFit lo hi d len limit l cur (some cur) := ⟨⟨le_rfl, h⟩, fun _ ha => ha.1⟩

/-- The scan may give up where the block no longer ends below the limit. -/
theorem FirstFit.giveUp (h : limit < cur + len) : FirstFit lo hi d len limit l cur none :=
  fun a ha hf => absurd hf.2.1 (by omega)

end FirstFit

end Interval
