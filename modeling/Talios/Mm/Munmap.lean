import Talios.Mm.VmaSearch

set_option autoImplicit false

/-! # What `do_munmap` leaves

On a list in order `do_munmap` is subtraction of an interval, point by point: an address keeps
the area data it had or is no longer covered. The loop can fail only where one area straddles the
whole range and has to be split, and then no other area meets it, so a call that fails has done
nothing. The offsets into the backing object are a different matter: a split moves them, a trim
at the front does not.
-/

namespace Talios

open Word Interval

/-! ## Points of a list -/

/-- The area of the list that covers `x`. -/
abbrev areaAt (l : List VmArea) (x : Nat) : Option VmArea := at? VmArea.start VmArea.stop l x

/-- The area meets `[addr, stop)`. -/
def VmArea.Meets (v : VmArea) (addr stop : Nat) : Prop := v.start < stop ∧ addr < v.stop

/-- The area reaches beyond `[addr, stop)` on both sides. -/
def VmArea.Straddles (v : VmArea) (addr stop : Nat) : Prop := v.start < addr ∧ stop < v.stop

/-- `do_munmap` supports the area: it is anonymous and has no file. -/
def VmArea.Anonymous (v : VmArea) : Prop := hasFlag v.mmapFlags MAP_ANONYMOUS = true ∧ v.file = none

/-- The data of an area that an unmap has to keep. -/
def VmArea.attrs (v : VmArea) : Nat × Nat × Nat := (v.prot, v.flags, v.mmapFlags)

/-- The offset in the backing object of the address `x` of the area. -/
def VmArea.offsetAt (v : VmArea) (x : Nat) : Nat := add64 v.fileOffset (x - v.start)

section

variable {σ : Type} (env : VmaEnv σ) (mm : Lmm) {addr stop : Nat}

/-- Areas behind the range are not looked at. -/
theorem munmapLoop_behind (hlt : addr < stop) {l : List VmArea}
    (h : Sorted VmArea.start VmArea.stop l) (hb : ∀ v ∈ l, stop ≤ v.start) (s : σ) (u : Bool) :
    munmapLoop env mm addr stop l s u = (l, s, if u then 0 else -(EINVAL : Int)) := by
  cases l with
  | nil => rfl
  | cons v rest =>
      have hv := hb v (by simp)
      have hpos := h.nonempty v (by simp)
      rw [munmapLoop, if_neg (by omega), if_pos hv]

/-- What is left of an area that meets the range and is not split. -/
inductive Trimmed (addr stop : Nat) (v : VmArea) : List VmArea → Prop
  | whole (h : addr ≤ v.start) (h' : v.stop ≤ stop) : Trimmed addr stop v []
  | front (h : addr ≤ v.start) (h' : stop < v.stop) : Trimmed addr stop v [{ v with start := stop }]
  | back (h : v.start < addr) (h' : v.stop ≤ stop) : Trimmed addr stop v [{ v with stop := addr }]

/-- The second half of an area that is split. -/
def VmArea.upperHalf (v : VmArea) (id self stop : Nat) : VmArea :=
  { v with self := self, vmMm := id, start := stop,
           fileOffset := add64 v.fileOffset (stop - v.start) }

/-- **One round of `do_munmap`** on an anonymous area. -/
theorem munmapLoop_cons (addr stop : Nat) {v : VmArea} (hv : v.Anonymous) (rest : List VmArea)
    (s : σ) (u : Bool) :
    (v.stop ≤ addr ∧ munmapLoop env mm addr stop (v :: rest) s u
      = (v :: (munmapLoop env mm addr stop rest s u).1,
          (munmapLoop env mm addr stop rest s u).2)) ∨
    (stop ≤ v.start ∧ munmapLoop env mm addr stop (v :: rest) s u
      = (v :: rest, s, if u then 0 else -(EINVAL : Int))) ∨
    (v.Straddles addr stop ∧ (env.kmalloc s).2 = none ∧
      munmapLoop env mm addr stop (v :: rest) s u
        = (v :: rest, (env.kmalloc s).1, -(ENOMEM : Int))) ∨
    (v.Straddles addr stop ∧ ∃ p s', (env.kmalloc s).2 = some p ∧
      munmapLoop env mm addr stop (v :: rest) s u
        = ({ v with stop := addr } :: v.upperHalf mm.self p stop
            :: (munmapLoop env mm addr stop rest s' true).1,
            (munmapLoop env mm addr stop rest s' true).2)) ∨
    (v.Meets addr stop ∧ ¬ v.Straddles addr stop ∧ ∃ part s', Trimmed addr stop v part ∧
      munmapLoop env mm addr stop (v :: rest) s u
        = (part ++ (munmapLoop env mm addr stop rest s' true).1,
            (munmapLoop env mm addr stop rest s' true).2)) := by
  by_cases h1 : v.stop ≤ addr
  · exact Or.inl ⟨h1, by rw [munmapLoop, if_pos h1]⟩
  by_cases h2 : stop ≤ v.start
  · exact Or.inr (Or.inl ⟨h2, by rw [munmapLoop, if_neg h1, if_pos h2]⟩)
  have hanon : ¬ (!hasFlag v.mmapFlags MAP_ANONYMOUS || v.file.isSome) = true := by
    simp [hv.1, hv.2]
  by_cases h3 : v.Straddles addr stop
  · have hus : (if v.start < addr then addr else v.start) = addr := if_pos h3.1
    have hue : (if stop < v.stop then stop else v.stop) = stop := if_pos h3.2
    rcases hk : env.kmalloc s with ⟨s₁, _ | p⟩
    · refine Or.inr (Or.inr (Or.inl ⟨h3, rfl, ?_⟩))
      rw [munmapLoop, if_neg h1, if_neg h2, if_neg hanon]
      dsimp only
      rw [hus, hue, if_pos ⟨h3.1, h3.2⟩, hk]
    · refine Or.inr (Or.inr (Or.inr (Or.inl
        ⟨h3, p, env.unmapAnonymousPages s₁ mm.pgd addr stop, rfl, ?_⟩)))
      rw [munmapLoop, if_neg h1, if_neg h2, if_neg hanon]
      dsimp only
      rw [hus, hue, if_pos ⟨h3.1, h3.2⟩, hk]
      rfl
  · refine Or.inr (Or.inr (Or.inr (Or.inr ⟨⟨by omega, by omega⟩, h3, ?_⟩)))
    unfold VmArea.Straddles at h3
    by_cases ha : v.start < addr
    · -- the range begins inside the area and covers its end
      have hs : ¬ stop < v.stop := fun hs => h3 ⟨ha, hs⟩
      refine ⟨_, env.unmapAnonymousPages s mm.pgd addr v.stop, .back ha (by omega), ?_⟩
      rw [munmapLoop, if_neg h1, if_neg h2, if_neg hanon]
      dsimp only
      rw [if_pos ha, if_neg hs, if_neg (by omega), if_neg (by omega), if_neg (by omega)]
      rfl
    by_cases hs : stop < v.stop
    · refine ⟨_, env.unmapAnonymousPages s mm.pgd v.start stop, .front (by omega) hs, ?_⟩
      rw [munmapLoop, if_neg h1, if_neg h2, if_neg hanon]
      dsimp only
      rw [if_neg ha, if_pos hs, if_neg (by omega), if_neg (by omega), if_pos rfl]
      rfl
    · refine ⟨_, env.kfree (env.unmapAnonymousPages s mm.pgd v.start v.stop) v.self,
        .whole (by omega) (by omega), ?_⟩
      rw [munmapLoop, if_neg h1, if_neg h2, if_neg hanon]
      dsimp only
      rw [if_neg ha, if_neg hs, if_neg (by omega), if_pos ⟨rfl, rfl⟩]
      rfl

/-- No area has to be split: the loop ends without an error once an area has met the range, and
otherwise it has changed nothing. -/
theorem munmapLoop_whole : ∀ (l : List VmArea) (s : σ) (u : Bool),
    Sorted VmArea.start VmArea.stop l → (∀ v ∈ l, v.Anonymous) →
    (∀ v ∈ l, ¬ v.Straddles addr stop) →
    ((u = true ∨ ∃ v ∈ l, v.Meets addr stop) → (munmapLoop env mm addr stop l s u).2.2 = 0) ∧
    ((∀ v ∈ l, ¬ v.Meets addr stop) →
      munmapLoop env mm addr stop l s u = (l, s, if u then 0 else -(EINVAL : Int))) := by
  intro l
  induction l with
  | nil =>
      intro s u _ _ _
      refine ⟨fun hu => ?_, fun _ => rfl⟩
      rcases hu with rfl | ⟨v, hv, -⟩
      · rfl
      · exact absurd hv (by simp)
  | cons v rest ih =>
      intro s u h hanon hstr
      obtain ⟨hpos, hord, hrest⟩ := sorted_cons.mp h
      obtain ⟨hv, hanon'⟩ := List.forall_mem_cons.mp hanon
      obtain ⟨hsv, hstr'⟩ := List.forall_mem_cons.mp hstr
      rcases munmapLoop_cons env mm addr stop hv rest s u with ⟨h1, he⟩ | ⟨h2, he⟩ |
        ⟨hs, -⟩ | ⟨hs, -⟩ | ⟨hm, -, part, s', -, he⟩
      · obtain ⟨hi, hi'⟩ := ih s u hrest hanon' hstr'
        rw [he]
        constructor
        · rintro (hu | ⟨w, hw, hm⟩)
          · exact hi (Or.inl hu)
          · unfold VmArea.Meets at hm
            rcases List.mem_cons.mp hw with rfl | hw
            · omega
            · exact hi (Or.inr ⟨w, hw, hm⟩)
        · intro hall
          rw [hi' (fun w hw => hall w (List.mem_cons_of_mem v hw))]
      · rw [he]
        refine ⟨?_, fun _ => rfl⟩
        rintro (rfl | ⟨w, hw, hm⟩)
        · rfl
        · unfold VmArea.Meets at hm
          rcases List.mem_cons.mp hw with rfl | hw
          · omega
          · have := hord w hw
            omega
      · exact absurd hs hsv
      · exact absurd hs hsv
      · -- once an area has met the range, the rest cannot fail
        rw [he]
        exact ⟨fun _ => (ih s' true hrest hanon' hstr').1 (Or.inl rfl),
          fun hall => absurd hm (hall v (by simp))⟩

/-- One area straddles the range: it is the only one that meets it, and the call fails exactly
when there is no memory for the second half, with nothing done. -/
theorem munmapLoop_split (hlt : addr < stop) : ∀ (l : List VmArea) (s : σ) (u : Bool),
    Sorted VmArea.start VmArea.stop l → (∀ v ∈ l, v.Anonymous) →
    (∃ v ∈ l, v.Straddles addr stop) →
    ((env.kmalloc s).2 = none →
      munmapLoop env mm addr stop l s u = (l, (env.kmalloc s).1, -(ENOMEM : Int))) ∧
    ((env.kmalloc s).2 ≠ none → (munmapLoop env mm addr stop l s u).2.2 = 0) := by
  intro l
  induction l with
  | nil => exact fun s u _ _ ⟨v, hv, _⟩ => absurd hv (by simp)
  | cons v rest ih =>
      rintro s u h hanon ⟨w, hw, hs⟩
      obtain ⟨hpos, hord, hrest⟩ := sorted_cons.mp h
      obtain ⟨hv, hanon'⟩ := List.forall_mem_cons.mp hanon
      have hbehind : v.start < stop → addr < v.stop → w = v := by
        intro _ h2
        rcases List.mem_cons.mp hw with rfl | hw
        · rfl
        · have := hord w hw
          unfold VmArea.Straddles at hs
          omega
      rcases munmapLoop_cons env mm addr stop hv rest s u with ⟨h1, he⟩ | ⟨h2, he⟩ |
        ⟨hsv, hk, he⟩ | ⟨hsv, p, s', hk, he⟩ | ⟨hm, hsv, -⟩
      · have hw' : w ∈ rest := by
          unfold VmArea.Straddles at hs
          rcases List.mem_cons.mp hw with rfl | hw
          · omega
          · exact hw
        obtain ⟨hi, hi'⟩ := ih s u hrest hanon' ⟨w, hw', hs⟩
        rw [he]
        exact ⟨fun hk => by rw [hi hk], hi'⟩
      · unfold VmArea.Straddles at hs
        rcases List.mem_cons.mp hw with rfl | hw
        · omega
        · have := hord w hw
          omega
      · exact ⟨fun _ => he, fun hne => absurd hk hne⟩
      · refine ⟨fun hn => absurd (hk.symm.trans hn) (by simp), fun _ => ?_⟩
        unfold VmArea.Straddles at hsv
        rw [he, munmapLoop_behind env mm hlt hrest
          (fun x hx => hsv.2.le.trans (hord x hx))]
        rfl
      · rw [hbehind hm.1 hm.2] at hs
        exact absurd hs hsv

/-- **Point by point.** A datum of the covering area that no piece changes is kept by every
address outside the range, and no address of the range is covered. -/
theorem munmapLoop_at {β : Type} (g : VmArea → Nat → β)
    (hback : ∀ (v : VmArea) (y x : Nat), g { v with stop := y } x = g v x)
    (hsplit : ∀ (v : VmArea) (p x : Nat), v.Straddles addr stop → stop ≤ x → x < v.stop →
      g (v.upperHalf mm.self p stop) x = g v x) (hlt : addr < stop) :
    ∀ (l : List VmArea) (s : σ) (u : Bool), Sorted VmArea.start VmArea.stop l →
      (∀ v ∈ l, v.Anonymous) →
      (∀ v ∈ l, addr ≤ v.start → v.start < stop → stop < v.stop → ∀ x, stop ≤ x → x < v.stop →
        g { v with start := stop } x = g v x) →
      (munmapLoop env mm addr stop l s u).2.2 = 0 → ∀ x,
        (areaAt (munmapLoop env mm addr stop l s u).1 x).map (g · x)
          = if addr ≤ x ∧ x < stop then none else (areaAt l x).map (g · x) := by
  intro l
  induction l with
  | nil => intro s u _ _ _ _ x; simp [munmapLoop, at?]
  | cons v rest ih =>
      intro s u h hanon hfront h0 x
      obtain ⟨hpos, hord, hrest⟩ := sorted_cons.mp h
      obtain ⟨hv, hanon'⟩ := List.forall_mem_cons.mp hanon
      obtain ⟨hfv, hfront'⟩ := List.forall_mem_cons.mp hfront
      -- the pieces left of `v`, in front of what is left of the other areas
      have hpieces : ∀ (ps : List VmArea) (s' : σ) (u' : Bool),
          (munmapLoop env mm addr stop rest s' u').2.2 = 0 →
          (∀ w ∈ ps, Has VmArea.start VmArea.stop w x → ¬ (addr ≤ x ∧ x < stop) ∧
            Has VmArea.start VmArea.stop v x ∧ g w x = g v x) →
          (Has VmArea.start VmArea.stop v x → ¬ (addr ≤ x ∧ x < stop) →
            ∃ w ∈ ps, Has VmArea.start VmArea.stop w x) →
          (areaAt (ps ++ (munmapLoop env mm addr stop rest s' u').1) x).map (g · x)
            = if addr ≤ x ∧ x < stop then none else (areaAt (v :: rest) x).map (g · x) :=
        fun ps s' u' h' hp hv' =>
          map_at?_replace hp hv' (ih s' u' hrest hanon' hfront' h' x)
      rcases munmapLoop_cons env mm addr stop hv rest s u with ⟨h1, he⟩ | ⟨h2, he⟩ | ⟨-, -, he⟩ |
        ⟨hs, p, s', -, he⟩ | ⟨hm, hs, part, s', hpart, he⟩
      · rw [he] at h0 ⊢
        refine hpieces [v] s u h0 (fun w hw hx => ?_) (fun hx _ => ⟨v, by simp, hx⟩)
        obtain rfl := List.mem_singleton.mp hw
        exact ⟨by unfold Has at hx; omega, hx, rfl⟩
      · -- the range lies in front of all areas that are left
        rw [he]
        by_cases hx : addr ≤ x ∧ x < stop
        · rw [if_pos hx]
          refine Option.map_eq_none_iff.mpr (at?_eq_none_iff.mpr (fun w hw hc => ?_))
          unfold Has at hc
          rcases List.mem_cons.mp hw with rfl | hw
          · omega
          · have := hord w hw
            omega
        · rw [if_neg hx]
      · rw [he] at h0
        exact absurd h0 (by show ¬ (-(ENOMEM : Int)) = 0; decide)
      · rw [he] at h0 ⊢
        refine hpieces [{ v with stop := addr }, v.upperHalf mm.self p stop] s' true h0
          (fun w hw hx => ?_) (fun hx hout => ?_)
        · unfold VmArea.Straddles at hs
          rcases List.mem_cons.mp hw with rfl | hw
          · unfold Has at hx ⊢
            exact ⟨by simp only at hx; omega, by simp only at hx; omega, hback v addr x⟩
          · obtain rfl := List.mem_singleton.mp hw
            unfold Has VmArea.upperHalf at hx
            simp only at hx
            exact ⟨by omega, ⟨by omega, hx.2⟩, hsplit v p x hs hx.1 hx.2⟩
        · unfold Has at hx
          by_cases hlow : x < addr
          · exact ⟨{ v with stop := addr }, by simp, hx.1, hlow⟩
          · exact ⟨v.upperHalf mm.self p stop, by simp, by show stop ≤ x; omega, hx.2⟩
      · unfold VmArea.Meets at hm
        rw [he] at h0 ⊢
        cases hpart with
        | whole ha hb =>
            refine hpieces [] s' true h0 (by simp) (fun hx hout => ?_)
            unfold Has at hx
            omega
        | front ha hb =>
            refine hpieces _ s' true h0 (fun w hw hx => ?_) (fun hx hout => ?_)
            · obtain rfl := List.mem_singleton.mp hw
              unfold Has at hx
              simp only at hx
              exact ⟨by omega, ⟨by omega, hx.2⟩, hfv ha hm.1 hb x hx.1 hx.2⟩
            · unfold Has at hx
              exact ⟨_, List.mem_singleton_self _, by show stop ≤ x; omega, hx.2⟩
        | back ha hb =>
            refine hpieces _ s' true h0 (fun w hw hx => ?_) (fun hx hout => ?_)
            · obtain rfl := List.mem_singleton.mp hw
              unfold Has at hx
              simp only at hx
              exact ⟨by omega, ⟨hx.1, by omega⟩, hback v addr x⟩
            · unfold Has at hx
              exact ⟨_, List.mem_singleton_self _, hx.1, by show x < addr; omega⟩

end

/-! ## Runs of `do_mmap`, `do_munmap` and `vma_clone_all` -/

/-- The states reached by these calls alone; every request that is served meets `ok`. -/
inductive MmapReachable {σ : Type} (env : VmaEnv σ) (ok : MmapArgs → Prop) : VmaState σ → Prop
  | start (rest : σ) : MmapReachable env ok ⟨fun _ => none, rest⟩
  | init {s : VmaState σ} (h : MmapReachable env ok s) (mm : Lmm) (hm : s.lmm mm.self = none) :
      MmapReachable env ok (s.set mm.self (lmmInit mm) s.rest)
  | mmap {s : VmaState σ} (h : MmapReachable env ok s) {id : Nat} {mm : Lmm}
      (hid : s.lmm id = some mm) (a : MmapArgs)
      (hok : (doMmap env mm a s.rest).2.2 < 2 ^ 63 → ok a) :
      MmapReachable env ok (s.set id (doMmap env mm a s.rest).1 (doMmap env mm a s.rest).2.1)
  | munmap {s : VmaState σ} (h : MmapReachable env ok s) {id : Nat} {mm : Lmm}
      (hid : s.lmm id = some mm) (addr len : Nat) :
      MmapReachable env ok (s.set id (doMunmap env mm addr len s.rest).1
        (doMunmap env mm addr len s.rest).2.1)
  | clone {s : VmaState σ} (h : MmapReachable env ok s) {i j : Nat} {src dst : Lmm}
      (hi : s.lmm i = some src) (hj : s.lmm j = some dst) (hfresh : lmmInit dst = dst) :
      MmapReachable env ok (s.clone env i j).1
  | other {s : VmaState σ} (h : MmapReachable env ok s) (rest : σ) :
      MmapReachable env ok ⟨s.lmm, rest⟩

/-- A property of areas that the pieces and the copies of an area inherit. -/
structure PieceClosed (P : VmArea → Prop) : Prop where
  anonymous : ∀ v, P v → v.Anonymous
  lower : ∀ v x, P v → v.start < x → x ≤ v.stop → P { v with stop := x }
  upper : ∀ v x, P v → v.start ≤ x → x < v.stop → P { v with start := x }
  half : ∀ v id p x, P v → v.start < x → x < v.stop → P (v.upperHalf id p x)
  copy : ∀ v p m, P v → P { v with self := p, vmMm := m }

section

variable {σ : Type} {env : VmaEnv σ} {ok : MmapArgs → Prop} {s : VmaState σ} {P : VmArea → Prop}

theorem MmapReachable.vma (h : MmapReachable env ok s) : VmaReachable env s := by
  induction h with
  | start rest => exact VmaReachable.start rest
  | init _ mm hm ih => exact ih.step (VmaStep.init mm hm)
  | mmap _ hid a _ ih => exact ih.step (VmaStep.mmap hid a)
  | munmap _ hid addr len ih => exact ih.step (VmaStep.munmap hid addr len)
  | clone _ hi hj hfresh ih => exact ih.step (VmaStep.clone hi hj hfresh)
  | other _ rest ih => exact ih.step (VmaStep.other rest)

theorem PieceClosed.munmapLoop (hP : PieceClosed P) (env : VmaEnv σ) (mm : Lmm) {addr stop : Nat}
    (hlt : addr < stop) : ∀ (l : List VmArea) (r : σ) (u : Bool), (∀ v ∈ l, P v) →
      ∀ v ∈ (munmapLoop env mm addr stop l r u).1, P v := by
  intro l
  induction l with
  | nil => intro r u _ v hv; simp [Talios.munmapLoop] at hv
  | cons v rest ih =>
      intro r u h
      obtain ⟨hv, hrest⟩ := List.forall_mem_cons.mp h
      rcases munmapLoop_cons env mm addr stop (hP.anonymous v hv) rest r u with ⟨-, he⟩ | ⟨-, he⟩ |
        ⟨-, -, he⟩ | ⟨hs, p, r', -, he⟩ | ⟨hm, -, part, r', hpart, he⟩ <;> rw [he]
      · exact List.forall_mem_cons.mpr ⟨hv, ih r u hrest⟩
      · exact h
      · exact h
      · unfold VmArea.Straddles at hs
        exact List.forall_mem_cons.mpr ⟨hP.lower v addr hv hs.1 (by omega),
          List.forall_mem_cons.mpr ⟨hP.half v _ p stop hv (by omega) hs.2, ih r' true hrest⟩⟩
      · unfold VmArea.Meets at hm
        intro w hw
        rcases List.mem_append.mp hw with hw | hw
        · cases hpart with
          | whole => exact absurd hw (by simp)
          | front ha hb =>
              obtain rfl := List.mem_singleton.mp hw
              exact hP.upper v stop hv (by omega) hb
          | back ha hb =>
              obtain rfl := List.mem_singleton.mp hw
              exact hP.lower v addr hv ha (by omega)
        · exact ih r' true hrest w hw

theorem PieceClosed.cloneLoop (hP : PieceClosed P) (env : VmaEnv σ) : ∀ (l : List VmArea)
    (dst : Lmm) (r : σ), (∀ v ∈ l, P v) → (∀ v ∈ dst.vmaList, P v) →
      ∀ v ∈ (cloneLoop env l dst r).1.vmaList, P v := by
  intro l
  induction l with
  | nil => exact fun dst r _ h => h
  | cons v rest ih =>
      intro dst r hl hd
      obtain ⟨hv, hrest⟩ := List.forall_mem_cons.mp hl
      rw [Talios.cloneLoop]
      rcases env.kmalloc r with ⟨r₁, _ | p⟩
      · dsimp only [vmaDestroyAll]
        split
        · simp
        · exact hd
      · refine ih _ r₁ hrest (fun w hw => ?_)
        rcases List.mem_append.mp hw with hw | hw
        · exact hd w hw
        · obtain rfl := List.mem_singleton.mp hw
          exact hP.copy v p dst.self hv

/-- **A property of all areas of a run**, from the areas `do_mmap` inserts. -/
theorem MmapReachable.forall_areas (hP : PieceClosed P)
    (hnew : ∀ (mm mm' : Lmm) (a : MmapArgs) (addr : Nat) (v : VmArea), ok a → a.Valid →
      Mapped mm mm' a addr → v.start = addr → v.stop = addr + pageUp a.len →
      v.mmapFlags = a.flags → v.fileOffset = a.pgoff * PAGE_4K_SIZE % 2 ^ 64 → v.file = a.file →
      P v) (h : MmapReachable env ok s) :
    ∀ id mm, s.lmm id = some mm → ∀ v ∈ mm.vmaList, P v := by
  have hset : ∀ {s : VmaState σ} {id : Nat} {mm : Lmm} (r : σ),
      (∀ id mm, s.lmm id = some mm → ∀ v ∈ mm.vmaList, P v) → (∀ v ∈ mm.vmaList, P v) →
      ∀ j mm', (s.set id mm r).lmm j = some mm' → ∀ v ∈ mm'.vmaList, P v := by
    intro s id mm r hall hmm j mm' hj
    by_cases hji : j = id
    · subst hji
      rw [VmaState.set_lmm_self] at hj
      obtain rfl := Option.some.inj hj
      exact hmm
    · rw [VmaState.set_lmm_ne s hji] at hj
      exact hall j mm' hj
  induction h with
  | start rest => exact fun id mm hid => absurd hid (by simp)
  | init _ mm _ ih => exact hset _ ih (by simp [lmmInit])
  | @mmap s hs id mm hid a hok ih =>
      have hmm := hs.vma.ok id mm hid
      refine hset _ ih ?_
      rcases doMmap_cases env hmm a s.rest with ⟨-, e, -, hr⟩ | ⟨-, -, hr⟩ | ⟨-, -, -, -, hr⟩ |
        ⟨-, -, hr⟩ | ⟨hv, l, addr, hlt, hr, hm⟩
      · rw [hr]; exact ih id mm hid
      · rw [hr]; exact ih id mm hid
      · rw [hr]; exact ih id mm hid
      · rw [hr]; exact ih id mm hid
      · rw [hr] at hok ⊢
        obtain ⟨v, -, hperm, h1, h2, -, -, h3, h4, h5⟩ := hm.list
        have hP' : P v := hnew mm _ a addr v (hok hlt) hv hm h1 h2 h3 h4 h5
        intro w hw
        rcases List.mem_cons.mp (hperm.mem_iff.mp hw) with rfl | hw
        · exact hP'
        · exact ih id mm hid w hw
  | @munmap s _ id mm hid addr len ih =>
      refine hset _ ih ?_
      unfold doMunmap
      cases hc : munmapCheck mm addr len with
      | none => exact ih id mm hid
      | some len' =>
          have := (munmapCheck_spec hc).2.2.1
          exact hP.munmapLoop env mm (by omega) _ s.rest false (ih id mm hid)
  | @clone s _ i j src dst hi hj hfresh ih =>
      have hclone : (s.clone env i j).1 = s.set j (vmaCloneAll env src dst s.rest).1
          (vmaCloneAll env src dst s.rest).2.1 := by
        unfold VmaState.clone
        rw [hi, hj]
      rw [hclone]
      refine hset _ ih ?_
      unfold vmaCloneAll
      split
      · exact ih j dst hj
      · exact hP.cloneLoop env _ dst s.rest (ih i src hi) (ih j dst hj)
  | other _ rest ih => exact ih

/-- Every area of such a run is one `do_munmap` supports. -/
theorem MmapReachable.anonymous (h : MmapReachable env ok s) :
    ∀ id mm, s.lmm id = some mm → ∀ v ∈ mm.vmaList, v.Anonymous := by
  refine h.forall_areas ⟨fun _ hv => hv, fun _ _ hv _ _ => hv, fun _ _ hv _ _ => hv,
    fun _ _ _ _ hv _ _ => hv, fun _ _ _ hv => hv⟩ ?_
  intro mm mm' a addr v _ hv _ _ _ hf _ hfile
  exact ⟨by rw [hf]; exact hv.anonymous, by rw [hfile]; exact hv.file⟩

end

/-! ## Interval subtraction -/

/-- The arguments `do_munmap` accepts. -/
def UnmapValid (mm : Lmm) (addr len : Nat) : Prop :=
  mm.pgd ≠ 0 ∧ 0 < len ∧ PAGE_4K_SIZE ∣ addr ∧ PAGE_4K_SIZE ≤ addr ∧
    addr + pageUp len ≤ USER_LIMIT

theorem munmapCheck_iff {mm : Lmm} (hready : mm.listReady = true) (addr len len' : Nat) :
    munmapCheck mm addr len = some len' ↔ UnmapValid mm addr len ∧ len' = pageUp len := by
  constructor
  · intro h
    have hlen : 0 < len ∧ len ≤ USER_LIMIT - (PAGE_4K_SIZE - 1) ∧
        len' = alignUp64 PAGE_4K_SIZE len := by
      unfold munmapCheck at h
      dsimp only at h
      split_ifs at h with h1 h2 h3 h4
      push Not at h1
      exact ⟨Nat.pos_of_ne_zero h1.2.1, by omega, (Option.some.inj h).symm⟩
    obtain ⟨h1, -, -, h4, h5, h6, -⟩ := munmapCheck_spec h
    obtain rfl := hlen.2.2.trans (pageUp_bounds hlen.1 hlen.2.1).1
    exact ⟨⟨h6, hlen.1, h1, h4, h5⟩, rfl⟩
  · rintro ⟨⟨h1, h2, h3, h4, h5⟩, rfl⟩
    have hle : len ≤ USER_LIMIT - (PAGE_4K_SIZE - 1) := by
      unfold pageUp USER_LIMIT PAGE_4K_SIZE PAGE_4K_SHIFT at *
      omega
    obtain ⟨heq, hpos, -⟩ := pageUp_bounds h2 hle
    unfold munmapCheck
    rw [heq, if_neg (by simp [h1, Nat.ne_of_gt h2, Nat.mod_eq_zero_of_dvd h3]), if_neg (by omega)]
    dsimp only
    rw [if_neg (by omega), if_neg (by simp [hready])]

section

variable {σ : Type} (env : VmaEnv σ) {id : Nat} {mm : Lmm}

/-- When a call of `do_munmap` on anonymous areas succeeds, and what an error leaves. -/
theorem doMunmap_result (h : LmmOk id mm) (hanon : ∀ v ∈ mm.vmaList, v.Anonymous)
    (addr len : Nat) (r : σ) :
    ((doMunmap env mm addr len r).2.2 = 0 ↔
      UnmapValid mm addr len ∧ (∃ v ∈ mm.vmaList, v.Meets addr (addr + pageUp len)) ∧
      ((∃ v ∈ mm.vmaList, v.Straddles addr (addr + pageUp len)) → (env.kmalloc r).2 ≠ none)) ∧
    ((doMunmap env mm addr len r).2.2 ≠ 0 → (doMunmap env mm addr len r).1 = mm ∧
      ((doMunmap env mm addr len r).2.1 = r ∨ (env.kmalloc r).2 = none ∧
        (doMunmap env mm addr len r).2.1 = (env.kmalloc r).1)) := by
  have hsorted := h.areas.sorted
  cases hc : munmapCheck mm addr len with
  | none =>
      have he : doMunmap env mm addr len r = (mm, r, -(EINVAL : Int)) := by
        unfold doMunmap
        rw [hc]
      rw [he]
      refine ⟨iff_of_false (by show ¬ (-(EINVAL : Int)) = 0; decide) (fun hv => ?_),
        fun _ => ⟨rfl, Or.inl rfl⟩⟩
      rw [(munmapCheck_iff h.ready addr len _).mpr ⟨hv.1, rfl⟩] at hc
      exact nomatch hc
  | some len' =>
      obtain ⟨hv, rfl⟩ := (munmapCheck_iff h.ready addr len len').mp hc
      obtain ⟨-, -, hpos, -⟩ := munmapCheck_spec hc
      have hlt : addr < addr + pageUp len := by omega
      have he : doMunmap env mm addr len r
          = ({ mm with vmaList := (munmapLoop env mm addr (addr + pageUp len) mm.vmaList r false).1 },
            (munmapLoop env mm addr (addr + pageUp len) mm.vmaList r false).2) := by
        unfold doMunmap
        rw [hc]
      rw [he]
      by_cases hs : ∃ v ∈ mm.vmaList, v.Straddles addr (addr + pageUp len)
      · obtain ⟨hnone, hsome⟩ := munmapLoop_split env mm hlt mm.vmaList r false hsorted hanon hs
        have hmeets : ∃ v ∈ mm.vmaList, v.Meets addr (addr + pageUp len) := by
          obtain ⟨v, hmem, hv1, hv2⟩ := hs
          exact ⟨v, hmem, by omega, by omega⟩
        by_cases hk : (env.kmalloc r).2 = none
        · rw [hnone hk]
          exact ⟨iff_of_false (by show ¬ (-(ENOMEM : Int)) = 0; decide) (fun hc => hc.2.2 hs hk),
            fun _ => ⟨rfl, Or.inr ⟨hk, rfl⟩⟩⟩
        · exact ⟨iff_of_true (hsome hk) ⟨hv, hmeets, fun _ => hk⟩, fun h0 => absurd (hsome hk) h0⟩
      · obtain ⟨hzero, hsame⟩ := munmapLoop_whole env mm mm.vmaList r false hsorted hanon
          (fun v hmem hv => hs ⟨v, hmem, hv⟩)
        by_cases hm : ∃ v ∈ mm.vmaList, v.Meets addr (addr + pageUp len)
        · exact ⟨iff_of_true (hzero (Or.inr hm)) ⟨hv, hm, fun hc => absurd hc hs⟩,
            fun h0 => absurd (hzero (Or.inr hm)) h0⟩
        · rw [hsame (fun v hmem hv => hm ⟨v, hmem, hv⟩)]
          exact ⟨iff_of_false (by show ¬ (-(EINVAL : Int)) = 0; decide) (fun hc => hm hc.2.1),
            fun _ => ⟨rfl, Or.inl rfl⟩⟩

/-- A successful call, point by point. -/
theorem doMunmap_at {β : Type} (g : VmArea → Nat → β)
    (hback : ∀ (v : VmArea) (y x : Nat), g { v with stop := y } x = g v x)
    (h : LmmOk id mm) (hanon : ∀ v ∈ mm.vmaList, v.Anonymous) (addr len : Nat) (r : σ)
    (hsplit : ∀ (v : VmArea) (p x : Nat), v.Straddles addr (addr + pageUp len) →
      addr + pageUp len ≤ x → x < v.stop →
      g (v.upperHalf mm.self p (addr + pageUp len)) x = g v x)
    (hfront : ∀ v ∈ mm.vmaList, addr ≤ v.start → v.start < addr + pageUp len →
      addr + pageUp len < v.stop → ∀ x, addr + pageUp len ≤ x → x < v.stop →
        g { v with start := addr + pageUp len } x = g v x)
    (h0 : (doMunmap env mm addr len r).2.2 = 0) (x : Nat) :
    (areaAt (doMunmap env mm addr len r).1.vmaList x).map (g · x)
      = if addr ≤ x ∧ x < addr + pageUp len then none
        else (areaAt mm.vmaList x).map (g · x) := by
  cases hc : munmapCheck mm addr len with
  | none =>
      unfold doMunmap at h0
      rw [hc] at h0
      exact absurd h0 (by show ¬ (-(EINVAL : Int)) = 0; decide)
  | some len' =>
      obtain ⟨hv, rfl⟩ := (munmapCheck_iff h.ready addr len len').mp hc
      obtain ⟨-, -, hpos, -⟩ := munmapCheck_spec hc
      unfold doMunmap at h0 ⊢
      rw [hc] at h0 ⊢
      exact munmapLoop_at env mm g hback hsplit (by omega) mm.vmaList r false h.areas.sorted hanon
        hfront h0 x

end

/-- **`do_munmap` is interval subtraction, and atomic.** In every state reached by `do_mmap`,
`do_munmap` and `vma_clone_all`, and for all arguments. After a call that succeeds an address is
covered when it was and lies outside the range, with the same prot and flags. A call succeeds
exactly when its arguments are valid, the range meets an area, and the area it splits, if there
is one, gets its second half. An error leaves the list, and the rest of the kernel has seen at
most one `kmalloc`, which returned null: a page table that such a call keeps is unchanged. -/
theorem doMunmap_exact {σ : Type} {env : VmaEnv σ} {s : VmaState σ}
    (h : MmapReachable env (fun _ => True) s) {id : Nat} {mm : Lmm} (hid : s.lmm id = some mm)
    (addr len : Nat) :
    ((doMunmap env mm addr len s.rest).2.2 = 0 → ∀ x,
      (areaAt (doMunmap env mm addr len s.rest).1.vmaList x).map VmArea.attrs
        = if addr ≤ x ∧ x < addr + pageUp len then none
          else (areaAt mm.vmaList x).map VmArea.attrs) ∧
    ((doMunmap env mm addr len s.rest).2.2 = 0 ↔
      UnmapValid mm addr len ∧ (∃ v ∈ mm.vmaList, v.Meets addr (addr + pageUp len)) ∧
      ((∃ v ∈ mm.vmaList, v.Straddles addr (addr + pageUp len)) →
        (env.kmalloc s.rest).2 ≠ none)) ∧
    ((doMunmap env mm addr len s.rest).2.2 ≠ 0 →
      (doMunmap env mm addr len s.rest).1 = mm ∧
      ((doMunmap env mm addr len s.rest).2.1 = s.rest ∨ (env.kmalloc s.rest).2 = none ∧
        (doMunmap env mm addr len s.rest).2.1 = (env.kmalloc s.rest).1) ∧
      ∀ (τ : Type) (pageTable : σ → τ),
        (∀ r, (env.kmalloc r).2 = none → pageTable (env.kmalloc r).1 = pageTable r) →
        pageTable (doMunmap env mm addr len s.rest).2.1 = pageTable s.rest) := by
  have hok := h.vma.ok id mm hid
  have hanon := h.anonymous id mm hid
  obtain ⟨hiff, herr⟩ := doMunmap_result env hok hanon addr len s.rest
  refine ⟨fun h0 x => ?_, hiff, fun h0 => ?_⟩
  · exact doMunmap_at env (fun v _ => v.attrs) (fun _ _ _ => rfl) hok hanon addr len s.rest
      (fun _ _ _ _ _ _ => rfl) (fun _ _ _ _ _ _ _ _ => rfl) h0 x
  · obtain ⟨h1, h2⟩ := herr h0
    refine ⟨h1, h2, fun τ pageTable hp => ?_⟩
    rcases h2 with he | ⟨hk, he⟩
    · rw [he]
    · rw [he]
      exact hp s.rest hk

/-- A manager with four pages mapped at 0x2000, from page 7 of the backing object on. -/
def fourPages : Lmm :=
  ⟨64, 0x1000, DEFAULT_MMAP_BASE, true, [⟨128, 64, 0x2000, 0x6000, 3, 0, 0x22, 0x7000, none⟩]⟩

theorem fourPages_reachable (ok : MmapArgs → Prop) (h : ok ⟨none, 0x2000, 0x4000, 3, 0x22, 0, 7⟩) :
    ∃ s : VmaState Nat, MmapReachable exampleEnv ok s ∧ s.lmm 64 = some fourPages := by
  let mm : Lmm := ⟨64, 0x1000, 0, false, []⟩
  let s₀ : VmaState Nat := ⟨fun _ => none, 0⟩
  let a : MmapArgs := ⟨none, 0x2000, 0x4000, 3, 0x22, 0, 7⟩
  let r := doMmap exampleEnv (lmmInit mm) a 0
  let s₁ := s₀.set 64 (lmmInit mm) 0
  have h₁ : MmapReachable exampleEnv ok s₁ := (MmapReachable.start 0).init mm rfl
  have h₂ : MmapReachable exampleEnv ok (s₁.set 64 r.1 r.2.1) :=
    h₁.mmap (s₀.set_lmm_self ..) a (fun _ => h)
  have hr : (doMmap exampleEnv (lmmInit ⟨64, 0x1000, 0, false, []⟩)
      ⟨none, 0x2000, 0x4000, 3, 0x22, 0, 7⟩ 0).1 = fourPages := rfl
  exact ⟨_, h₂, (s₁.set_lmm_self ..).trans (congrArg some hr)⟩

/-- The two pages in the middle are unmapped, and the outer ones stay. -/
theorem doMunmap_exact_fourPages : ∃ s : VmaState Nat,
    MmapReachable exampleEnv (fun _ => True) s ∧ s.lmm 64 = some fourPages ∧
    ((doMunmap exampleEnv fourPages 0x3000 0x2000 s.rest).2.2 = 0 ↔
      UnmapValid fourPages 0x3000 0x2000 ∧
      (∃ v ∈ fourPages.vmaList, v.Meets 0x3000 (0x3000 + pageUp 0x2000)) ∧
      ((∃ v ∈ fourPages.vmaList, v.Straddles 0x3000 (0x3000 + pageUp 0x2000)) →
        (exampleEnv.kmalloc s.rest).2 ≠ none)) := by
  obtain ⟨s, hs, hid⟩ := fourPages_reachable (fun _ => True) trivial
  exact ⟨s, hs, hid, (doMunmap_exact hs hid 0x3000 0x2000).2.1⟩

/-! ## Offsets after an unmap -/

/-- The range covers the front of the area, and leaves its end. -/
def VmArea.TrimmedInFront (v : VmArea) (addr stop : Nat) : Prop :=
  addr ≤ v.start ∧ v.start < stop ∧ stop < v.stop

/-- The second half of a split has its offset moved with its start. -/
theorem VmArea.upperHalf_offsetAt (v : VmArea) (id p : Nat) {stop x : Nat} (h1 : v.start ≤ stop)
    (h2 : stop ≤ x) : (v.upperHalf id p stop).offsetAt x = v.offsetAt x := by
  unfold VmArea.offsetAt VmArea.upperHalf add64
  dsimp only
  omega

section

variable {σ : Type} (env : VmaEnv σ)

/-- An area trimmed in front stays in the list with its start moved alone. -/
theorem munmapLoop_front_mem (mm : Lmm) {addr stop : Nat} {v : VmArea}
    (ht : v.TrimmedInFront addr stop) : ∀ (l : List VmArea) (r : σ) (u : Bool),
    Sorted VmArea.start VmArea.stop l → (∀ w ∈ l, w.Anonymous) → v ∈ l →
    { v with start := stop } ∈ (munmapLoop env mm addr stop l r u).1 := by
  obtain ⟨h1, h2, h3⟩ := ht
  intro l
  induction l with
  | nil => exact fun r u _ _ hv => absurd hv (by simp)
  | cons w rest ih =>
      intro r u h hanon hv
      obtain ⟨hpos, hord, hrest⟩ := sorted_cons.mp h
      obtain ⟨hw, hanon'⟩ := List.forall_mem_cons.mp hanon
      rcases munmapLoop_cons env mm addr stop hw rest r u with ⟨hb, he⟩ | ⟨hb, he⟩ | ⟨hs, -⟩ |
        ⟨hs, -⟩ | ⟨-, -, part, r', hpart, he⟩
      · rw [he]
        rcases List.mem_cons.mp hv with rfl | hv
        · omega
        · exact List.mem_cons_of_mem _ (ih r u hrest hanon' hv)
      · rcases List.mem_cons.mp hv with rfl | hv
        · omega
        · have := hord v hv
          omega
      · unfold VmArea.Straddles at hs
        rcases List.mem_cons.mp hv with rfl | hv
        · omega
        · have := hord v hv
          omega
      · unfold VmArea.Straddles at hs
        rcases List.mem_cons.mp hv with rfl | hv
        · omega
        · have := hord v hv
          omega
      · rw [he]
        rcases List.mem_cons.mp hv with rfl | hv
        · cases hpart with
          | whole ha hb => omega
          | front ha hb => simp
          | back ha hb => omega
        · exact List.mem_append_right _ (ih r' true hrest hanon' hv)

end

/-- **A trim in front loses the offset.** In every state reached by `do_mmap`, `do_munmap` and
`vma_clone_all`, a successful unmap keeps the offset of every address that stays covered exactly
when it trims no area in front: of the four shapes that one moves the start and leaves the
offset where it was. -/
theorem doMunmap_offsets {σ : Type} {env : VmaEnv σ} {s : VmaState σ}
    (h : MmapReachable env (fun _ => True) s) {id : Nat} {mm : Lmm} (hid : s.lmm id = some mm)
    (addr len : Nat) (h0 : (doMunmap env mm addr len s.rest).2.2 = 0) :
    (∀ x v v', areaAt mm.vmaList x = some v →
      areaAt (doMunmap env mm addr len s.rest).1.vmaList x = some v' →
      v'.offsetAt x = v.offsetAt x) ↔
    ¬ ∃ v ∈ mm.vmaList, v.TrimmedInFront addr (addr + pageUp len) := by
  have hok := h.vma.ok id mm hid
  have hanon := h.anonymous id mm hid
  constructor
  · rintro hkeep ⟨v, hv, ht⟩
    have hmem : { v with start := addr + pageUp len }
        ∈ (doMunmap env mm addr len s.rest).1.vmaList := by
      cases hc : munmapCheck mm addr len with
      | none =>
          unfold doMunmap at h0
          rw [hc] at h0
          exact absurd h0 (by show ¬ (-(EINVAL : Int)) = 0; decide)
      | some len' =>
          obtain ⟨-, rfl⟩ := (munmapCheck_iff hok.ready addr len len').mp hc
          unfold doMunmap
          rw [hc]
          exact munmapLoop_front_mem env mm ht mm.vmaList s.rest false hok.areas.sorted hanon hv
    obtain ⟨h1, h2, h3⟩ := ht
    obtain rfl := hok.self
    -- the first address that is left has lost the length that was cut off
    have hold := (hok.areas.sorted.at?_eq_some_iff (x := addr + pageUp len)).mpr
      ⟨hv, by omega, h3⟩
    have hnew := ((doMunmap_ok env hok.areas addr len s.rest).1.sorted.at?_eq_some_iff
      (x := addr + pageUp len)).mpr ⟨hmem, le_rfl, h3⟩
    have heq := hkeep _ _ _ hold hnew
    have hup := (hok.areas.areas v hv).upper
    unfold VmArea.offsetAt add64 at heq
    unfold USER_LIMIT at hup
    dsimp only at heq
    omega
  · intro hno x v v' hv hv'
    have := doMunmap_at env VmArea.offsetAt (fun _ _ _ => rfl) hok hanon addr len s.rest
      (fun w p y hs hy _ => w.upperHalf_offsetAt _ _ (by
        unfold VmArea.Straddles at hs
        omega) hy)
      (fun w hw h1 h2 h3 => absurd ⟨w, hw, h1, h2, h3⟩ hno) h0 x
    rw [hv', hv] at this
    split at this
    · exact absurd this (by simp)
    · exact Option.some.inj this

/-- Unmapping the last page trims at the back and keeps the offsets. -/
theorem doMunmap_offsets_fourPages : ∃ s : VmaState Nat,
    MmapReachable exampleEnv (fun _ => True) s ∧ s.lmm 64 = some fourPages ∧
    (doMunmap exampleEnv fourPages 0x5000 0x1000 s.rest).2.2 = 0 ∧
    ((∀ x v v', areaAt fourPages.vmaList x = some v →
      areaAt (doMunmap exampleEnv fourPages 0x5000 0x1000 s.rest).1.vmaList x = some v' →
      v'.offsetAt x = v.offsetAt x) ↔
    ¬ ∃ v ∈ fourPages.vmaList, v.TrimmedInFront 0x5000 (0x5000 + pageUp 0x1000)) := by
  obtain ⟨s, hs, hid⟩ := fourPages_reachable (fun _ => True) trivial
  have h0 : (doMunmap exampleEnv fourPages 0x5000 0x1000 s.rest).2.2 = 0 := rfl
  exact ⟨s, hs, hid, h0, doMunmap_offsets hs hid 0x5000 0x1000 h0⟩

/-- Unmapping the first of four pages succeeds, and the address 0x3000, which had the offset
0x8000, has the offset 0x7000 afterwards. -/
theorem doMunmap_front_offset : ∃ s : VmaState Nat,
    MmapReachable exampleEnv (fun _ => True) s ∧ s.lmm 64 = some fourPages ∧
    (doMunmap exampleEnv fourPages 0x2000 0x1000 s.rest).2.2 = 0 ∧
    (areaAt fourPages.vmaList 0x3000).map (·.offsetAt 0x3000) = some 0x8000 ∧
    (areaAt (doMunmap exampleEnv fourPages 0x2000 0x1000 s.rest).1.vmaList 0x3000).map
      (·.offsetAt 0x3000) = some 0x7000 := by
  obtain ⟨s, hs, hid⟩ := fourPages_reachable (fun _ => True) trivial
  exact ⟨s, hs, hid, rfl, rfl, rfl⟩

/-! ## Offsets of a mapping -/

/-- The offsets of the area end at or below `2 ^ 64`. -/
def VmArea.Representable (v : VmArea) : Prop := v.fileOffset + (v.stop - v.start) ≤ 2 ^ 64

/-- The last page of the request has a page offset below `2 ^ 52`. -/
def MmapArgs.OffsetsFit (a : MmapArgs) : Prop := a.pgoff + pageUp a.len / PAGE_4K_SIZE ≤ 2 ^ 52

instance (a : MmapArgs) : Decidable a.OffsetsFit := inferInstanceAs (Decidable (_ ≤ _))

/-- The first check bounds the pages by bytes, so only the second one says something: the offset
itself has no bit lost. -/
theorem MmapArgs.Valid.offset_eq {a : MmapArgs} (h : a.Valid) :
    a.pgoff * PAGE_4K_SIZE % 2 ^ 64 = a.pgoff * PAGE_4K_SIZE := by
  have := h.pgoff
  unfold PAGE_4K_SIZE PAGE_4K_SHIFT at *
  omega

/-- An area with the offset and the length of a request is representable when the request's
offsets fit. -/
theorem representable_iff {a : MmapArgs} {v : VmArea} {addr : Nat} (h1 : v.start = addr)
    (h2 : v.stop = addr + pageUp a.len) (h3 : v.fileOffset = a.pgoff * PAGE_4K_SIZE) :
    v.Representable ↔ a.OffsetsFit := by
  obtain ⟨k, hk⟩ := dvd_pageUp a.len
  unfold VmArea.Representable MmapArgs.OffsetsFit
  rw [h1, h2, h3, hk, Nat.mul_div_cancel_left k (by decide)]
  unfold PAGE_4K_SIZE PAGE_4K_SHIFT
  omega

/-- What an unmap leaves of a representable area is representable. -/
theorem pieceClosed_representable : PieceClosed (fun v => v.Anonymous ∧ v.Representable) := by
  refine ⟨fun v hv => hv.1, fun v x hv _ hx => ⟨hv.1, ?_⟩, fun v x hv hx _ => ⟨hv.1, ?_⟩,
    fun v id p x hv h1 h2 => ⟨hv.1, ?_⟩, fun v p m hv => hv⟩
  all_goals
    have hr := hv.2
    unfold VmArea.Representable at hr ⊢
    try unfold VmArea.upperHalf add64
    dsimp only
    omega

/-- Every offset of a representable area is computed without wrapping around. -/
theorem VmArea.Representable.offsetAt {v : VmArea} (h : v.Representable) {x : Nat}
    (h1 : v.start ≤ x) (h2 : x < v.stop) : v.offsetAt x = v.fileOffset + (x - v.start) := by
  unfold VmArea.Representable at h
  exact add64_eq (by omega)

/-- **When the offsets of a mapping are representable.** For every request `do_mmap` accepts, the
new area has the offset asked for, exactly, and ends at or below `2 ^ 64` in the backing object,
if and only if the page behind its last one has an offset of at most `2 ^ 52`. In a run in which
every accepted request meets that condition, the offset of every page of every area, and so of
every part `do_munmap` leaves, is computed without wrapping around. -/
theorem offsets_representable {σ : Type} (env : VmaEnv σ) :
    (∀ (id : Nat) (mm : Lmm) (a : MmapArgs) (s : σ), LmmOk id mm →
      (doMmap env mm a s).2.2 < 2 ^ 63 →
      ∃ v, (doMmap env mm a s).1.vmaList.Perm (v :: mm.vmaList) ∧
        v.start = (doMmap env mm a s).2.2 ∧
        ((v.fileOffset = a.pgoff * PAGE_4K_SIZE ∧ v.fileOffset + (v.stop - v.start) ≤ 2 ^ 64) ↔
          a.pgoff + pageUp a.len / PAGE_4K_SIZE ≤ 2 ^ 52)) ∧
    (∀ s : VmaState σ, MmapReachable env MmapArgs.OffsetsFit s → ∀ id mm, s.lmm id = some mm →
      ∀ v ∈ mm.vmaList, v.fileOffset + (v.stop - v.start) ≤ 2 ^ 64 ∧
        ∀ x, v.start ≤ x → x < v.stop → v.offsetAt x = v.fileOffset + (x - v.start)) := by
  constructor
  · intro id mm a s hok hlt
    rcases doMmap_cases env hok a s with ⟨-, e, he, hr⟩ | ⟨-, hge, hr⟩ | ⟨-, -, -, -, hr⟩ |
      ⟨-, -, hr⟩ | ⟨hv, l, addr, -, hr, hm⟩ <;> rw [hr] at hlt ⊢
    · simp only [List.map_cons, List.map_nil, List.mem_cons, List.not_mem_nil, or_false] at he
      rcases he with rfl | rfl | rfl | rfl | rfl <;> exact absurd hlt (by
        simp only [negErr, EINVAL, EBADF, EOPNOTSUPP, ENOMEM, EOVERFLOW]; omega)
    · exact absurd hlt (by simpa using hge)
    · exact absurd hlt (by simp only [negErr, EEXIST]; omega)
    · exact absurd hlt (by simp only [negErr, ENOMEM]; omega)
    · obtain ⟨v, -, hperm, h1, h2, -, -, -, h3, -⟩ := hm.list
      have hoff := h3.trans hv.offset_eq
      refine ⟨v, hperm, h1, (and_iff_right hoff).trans (representable_iff h1 h2 hoff)⟩
  · intro s h id mm hid v hmem
    have hrep : v.Representable := by
      refine (h.forall_areas pieceClosed_representable ?_ id mm hid v hmem).2
      intro mm' mm'' a addr w hfit hv _ h1 h2 hf h3 hfile
      exact ⟨⟨by rw [hf]; exact hv.anonymous, by rw [hfile]; exact hv.file⟩,
        (representable_iff h1 h2 (h3.trans hv.offset_eq)).mpr hfit⟩
    exact ⟨hrep, fun x h1 h2 => hrep.offsetAt h1 h2⟩

theorem offsets_representable_fourPages : ∃ s : VmaState Nat,
    MmapReachable exampleEnv MmapArgs.OffsetsFit s ∧ s.lmm 64 = some fourPages ∧
    ∀ v ∈ fourPages.vmaList, v.fileOffset + (v.stop - v.start) ≤ 2 ^ 64 := by
  obtain ⟨s, hs, hid⟩ := fourPages_reachable MmapArgs.OffsetsFit (by decide)
  exact ⟨s, hs, hid, fun v hv => ((offsets_representable exampleEnv).2 s hs 64 _ hid v hv).1⟩

/-- Two pages at the last page offset are accepted: the area's offset is exact, it ends behind
`2 ^ 64`, and its second page has the offset 0. -/
theorem doMmap_offset_wraps :
    (doMmap exampleEnv gapLmm ⟨none, 0x3000, 0x2000, 3, 0x22, 0, 2 ^ 52 - 1⟩ 0).2.2 = 0x3000 ∧
    ∃ v, (doMmap exampleEnv gapLmm ⟨none, 0x3000, 0x2000, 3, 0x22, 0, 2 ^ 52 - 1⟩ 0).1.vmaList.Perm
        (v :: gapLmm.vmaList) ∧ v.start = 0x3000 ∧
      v.fileOffset = (2 ^ 52 - 1) * PAGE_4K_SIZE ∧
      ¬ v.fileOffset + (v.stop - v.start) ≤ 2 ^ 64 ∧ v.offsetAt 0x4000 = 0 := by
  refine ⟨by decide, ⟨128, 64, 0x3000, 0x5000, 3, 0, 0x22, (2 ^ 52 - 1) * PAGE_4K_SIZE, none⟩, ?_,
    by decide, by decide, by decide, by decide⟩
  exact List.Perm.swap _ _ _

end Talios
