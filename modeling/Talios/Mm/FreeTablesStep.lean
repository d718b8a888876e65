import Talios.Mm.FreeTables

set_option autoImplicit false

/-! # What the loops of `FreeUserPageTables` do

`Holds` is the heap with the objects and frames that are in use, in any order. A loop that gives back
what a log says takes it out of both (`Releases`).
-/

namespace Talios

open Word Bitmap Dyadic

/-! ## Heaps -/

/-- The heap with the objects `objs`, near or astray, and the frames of other users. -/
def Holds (m₀ : MMS) (pool : Nat → Slab) (s : KMem) (objs : List Obj) (out : Nat → Nat) : Prop :=
  ∃ near astray, objs.Perm (near ++ astray) ∧ Parted m₀ pool s out near astray

section

variable {m₀ : MMS} {pool : Nat → Slab} {s s' : KMem} {objs objs' rest : List Obj}
  {out out' : Nat → Nat} {log log' : List TableRelease}

theorem Holds.perm (h : Holds m₀ pool s objs out) (hperm : objs.Perm objs') :
    Holds m₀ pool s objs' out := by
  obtain ⟨near, astray, hp, hpart⟩ := h
  exact ⟨near, astray, hperm.symm.trans hp, hpart⟩

theorem Holds.layout (h : Holds m₀ pool s objs out) : SameLayout m₀ s.mms := by
  obtain ⟨near, astray, -, hpart⟩ := h
  exact hpart.heap.layout

/-- Memory off the bitmaps may change in any way. -/
theorem Holds.setWord (h : Holds m₀ pool s objs out) {w : Memory}
    (hw : ∀ a, s.MapWord a → w a = s.word a) : Holds m₀ pool { s with word := w } objs out := by
  obtain ⟨near, astray, hp, hpart⟩ := h
  exact ⟨near, astray, hp, hpart.setWord (fun a ha => hw a (mapWord_of_trim ha))⟩

theorem Holds.write (h : Holds m₀ pool s objs out) {a : Nat} (ha : ¬ s.MapWord (a / 8))
    (v : BitVec 64) : Holds m₀ pool (s.write a v) objs out := by
  refine h.setWord (fun c hc => Function.update_of_ne (fun he => ha ?_) ..)
  rw [← he]
  exact hc

/-- **`kfree`** of an object. -/
theorem Holds.kfree (hp : PoolLayout m₀ pool) {b : Obj} (h : Holds m₀ pool s (b :: rest) out) :
    ∃ s', Talios.kfree s b.ptr = some (s', true) ∧ Holds m₀ pool s' rest out ∧ KfreeFrame s s' := by
  obtain ⟨near, astray, hperm, hpart⟩ := h
  by_cases hn : b ∈ near
  · obtain ⟨s', he, hpart', hframe⟩ := hpart.kfree_near hp hn (kfreeWith (fun _ _ => none))
    refine ⟨s', he, ⟨near.erase b, astray, ?_, hpart'⟩, hframe⟩
    rw [← List.erase_append_left _ hn]
    simpa using hperm.erase b
  · have ha : b ∈ astray :=
      (List.mem_append.mp (hperm.mem_iff.mp List.mem_cons_self)).resolve_left hn
    obtain ⟨s', he, hpart', hframe⟩ := hpart.kfree_astray hp ha
    refine ⟨s', he, ⟨near, astray.erase b, ?_, hpart'⟩, hframe⟩
    rw [← List.erase_append_right _ hn]
    simpa using hperm.erase b

/-- A block of pages is given back. -/
theorem Holds.pagesGiven {p number : Nat} (hb : BlockOk m₀ (p, getOrder number))
    (h : Holds m₀ pool s objs (fun x => ind p (getOrder number) x + out x)) :
    ∃ m', freePages s.mms p number = some (m', true) ∧
      Holds m₀ pool { s with mms := m' } objs out := by
  obtain ⟨near, astray, hperm, hpart⟩ := h
  obtain ⟨ho, ha, zi, hz, hin⟩ := hb
  obtain ⟨m', he, hpart'⟩ := hpart.pagesGiven hz ho ha hin (fun x => Nat.le_add_right _ _)
  refine ⟨m', he, near, astray, hperm, ?_⟩
  have hout : (fun x => ind p (getOrder number) x + out x - ind p (getOrder number) x) = out := by
    funext x
    exact Nat.add_sub_cancel_left ..
  rw [hout] at hpart'
  exact hpart'

/-! ## Releases -/

/-- The heap owns what the log gives back, and no bitmap lies on its tables. -/
structure Owned (m₀ : MMS) (pool : Nat → Slab) (s : KMem) (log : List TableRelease) (rest : List Obj)
    (out : Nat → Nat) : Prop where
  holds : Holds m₀ pool s (tableObjs log ++ rest) (fun x => framesOf log x + out x)
  ok : ∀ r ∈ log, r.Ok m₀
  distinct : (tablesOf log).Nodup
  offMaps : ∀ a, InTables log a → ¬ s.MapWord a

/-- The log has been given back, and memory is as it was off the bitmaps, except for the words
`dirty`. -/
structure Releases (m₀ : MMS) (pool : Nat → Slab) (s s' : KMem) (rest : List Obj) (out : Nat → Nat)
    (dirty : Nat → Prop) : Prop where
  holds : Holds m₀ pool s' rest out
  maps : ∀ a, s'.MapWord a → s.MapWord a
  word : ∀ a, ¬ s.MapWord a → ¬ dirty a → s'.word a = s.word a

theorem Owned.left (h : Owned m₀ pool s (log ++ log') rest out) :
    Owned m₀ pool s log (tableObjs log' ++ rest) (fun x => framesOf log' x + out x) := by
  refine ⟨?_, fun r hr => h.ok r (List.mem_append_left _ hr), ?_,
    fun a ha => h.offMaps a (inTables_append.mpr (Or.inl ha))⟩
  · have hholds := h.holds
    simp only [tableObjs_append, framesOf_append, List.append_assoc, Nat.add_assoc] at hholds
    exact hholds
  · have hnd := h.distinct
    rw [tablesOf_append, List.nodup_append] at hnd
    exact hnd.1

/-- What is left when the first part of a log has been given back. -/
theorem Owned.right {dirty : Nat → Prop} (h : Owned m₀ pool s (log ++ log') rest out)
    (hr : Releases m₀ pool s s' (tableObjs log' ++ rest) (fun x => framesOf log' x + out x) dirty) :
    Owned m₀ pool s' log' rest out := by
  refine ⟨hr.holds, fun r hr => h.ok r (List.mem_append_right _ hr), ?_,
    fun a ha hm => h.offMaps a (inTables_append.mpr (Or.inr ha)) (hr.maps a hm)⟩
  have hnd := h.distinct
  rw [tablesOf_append, List.nodup_append] at hnd
  exact hnd.2.1

/-- Nothing is given back. -/
theorem Owned.nothing {dirty : Nat → Prop} (h : Owned m₀ pool s [] rest out) :
    Releases m₀ pool s s rest out dirty := by
  refine ⟨?_, fun _ ha => ha, fun _ _ _ => rfl⟩
  have hholds := h.holds
  have hout : (fun x => framesOf [] x + out x) = out := by
    funext x
    exact Nat.zero_add _
  rw [hout] at hholds
  exact hholds

theorem Releases.trans {s'' : KMem} {rest' : List Obj} {dirty dirty' dirty'' : Nat → Prop}
    (h : Releases m₀ pool s s' rest' out' dirty) (h' : Releases m₀ pool s' s'' rest out dirty')
    (h1 : ∀ a, dirty a → dirty'' a) (h2 : ∀ a, dirty' a → dirty'' a) :
    Releases m₀ pool s s'' rest out dirty'' := by
  refine ⟨h'.holds, fun a ha => h.maps a (h'.maps a ha), fun a ha hd => ?_⟩
  rw [h'.word a (fun hm => ha (h.maps a hm)) (fun hx => hd (h2 a hx))]
  exact h.word a ha (fun hx => hd (h1 a hx))

/-- A store off the bitmaps. -/
theorem Holds.writes (h : Holds m₀ pool s objs out) {a : Nat} (ha : ¬ s.MapWord (a / 8))
    (v : BitVec 64) : Releases m₀ pool s (s.write a v) objs out (fun b => b = a / 8) :=
  ⟨h.write ha v, fun _ hm => hm, fun _ _ hd => Function.update_of_ne hd ..⟩

/-! ## Entries and loops -/

/-- The word of an entry. -/
theorem entry_div {t : Nat} (ht : PAGE_4K_SIZE ∣ t) (i : Nat) : (t + i * 8) / 8 = t / 8 + i := by
  unfold PAGE_4K_SIZE PAGE_4K_SHIFT at ht
  omega

/-- **One entry.** `step` on entry `i` of the table `t` gives back what `entryLog` makes of it in the
memory `w`, which the entry and the tables below it have not departed from. Then the entry is zero, or
it holds nothing and was passed over. -/
def EntrySpec (m₀ : MMS) (pool : Nat → Slab)
    (step : Nat → TableFreeing → Nat → Option TableFreeing)
    (entryLog : Memory → BitVec 64 → List TableRelease) : Prop :=
  ∀ (w : Memory) (t i : Nat) (s : KMem) (done : List TableRelease) (rest : List Obj) (out : Nat → Nat),
    PAGE_4K_SIZE ∣ t → Owned m₀ pool s (entryLog w (w (t / 8 + i))) rest out →
    s.word (t / 8 + i) = w (t / 8 + i) →
    (∀ a, InTables (entryLog w (w (t / 8 + i))) a → s.word a = w a) → ¬ s.MapWord (t / 8 + i) →
    ¬ InTables (entryLog w (w (t / 8 + i))) (t / 8 + i) →
    ∃ s', step t ⟨s, done⟩ i = some ⟨s', done ++ entryLog w (w (t / 8 + i))⟩ ∧
      Releases m₀ pool s s' rest out
        (fun a => a = t / 8 + i ∨ InTables (entryLog w (w (t / 8 + i))) a) ∧
      (s'.word (t / 8 + i) = 0 ∨
        entryLog w (w (t / 8 + i)) = [] ∧ s'.word (t / 8 + i) = w (t / 8 + i))

/-- **The loop over a table** gives back what its entries hold. -/
theorem EntrySpec.loop {step : Nat → TableFreeing → Nat → Option TableFreeing}
    {entryLog : Memory → BitVec 64 → List TableRelease} (hstep : EntrySpec m₀ pool step entryLog)
    (w : Memory) {t : Nat} (ht : PAGE_4K_SIZE ∣ t) (rest : List Obj) (out : Nat → Nat) :
    ∀ (is : List Nat), is.Nodup → ∀ (s : KMem) (done : List TableRelease),
      Owned m₀ pool s (is.flatMap (fun i => entryLog w (w (t / 8 + i)))) rest out →
      (∀ i ∈ is, s.word (t / 8 + i) = w (t / 8 + i)) →
      (∀ a, InTables (is.flatMap (fun i => entryLog w (w (t / 8 + i)))) a → s.word a = w a) →
      (∀ i ∈ is, ¬ s.MapWord (t / 8 + i)) →
      (∀ i ∈ is, ¬ InTables (is.flatMap (fun i => entryLog w (w (t / 8 + i)))) (t / 8 + i)) →
      ∃ s', is.foldlM (step t) ⟨s, done⟩
          = some ⟨s', done ++ is.flatMap (fun i => entryLog w (w (t / 8 + i)))⟩ ∧
        Releases m₀ pool s s' rest out (fun a => (∃ i ∈ is, a = t / 8 + i) ∨
          InTables (is.flatMap (fun i => entryLog w (w (t / 8 + i)))) a) ∧
        ∀ i ∈ is, s'.word (t / 8 + i) = 0 ∨
          entryLog w (w (t / 8 + i)) = [] ∧ s'.word (t / 8 + i) = w (t / 8 + i) := by
  intro is
  induction is with
  | nil =>
      intro _ s done howned _ _ _ _
      exact ⟨s, by simp, howned.nothing, by simp⟩
  | cons i is ih =>
      intro hnd s done howned hent hbelow hmap hout
      obtain ⟨hi, hnd'⟩ := List.nodup_cons.mp hnd
      rw [List.flatMap_cons] at howned hbelow hout
      have hin : ∀ {a : Nat}, InTables (is.flatMap (fun i => entryLog w (w (t / 8 + i)))) a →
          ¬ InTables (entryLog w (w (t / 8 + i))) a :=
        fun ha ha' => inTables_disjoint howned.ok howned.distinct ha' ha
      -- the first entry
      obtain ⟨s₁, h1, hrel, hgone⟩ := hstep w t i s done _ _ ht howned.left
        (hent i List.mem_cons_self) (fun a ha => hbelow a (inTables_append.mpr (Or.inl ha)))
        (hmap i List.mem_cons_self)
        (fun ha => hout i List.mem_cons_self (inTables_append.mpr (Or.inl ha)))
      -- the others have not changed
      have hother : ∀ j ∈ is, s₁.word (t / 8 + j) = s.word (t / 8 + j) := by
        intro j hj
        refine hrel.word _ (hmap j (List.mem_cons_of_mem _ hj)) ?_
        rintro (he | ha)
        · exact hi (by rwa [← Nat.add_left_cancel he])
        · exact hout j (List.mem_cons_of_mem _ hj) (inTables_append.mpr (Or.inl ha))
      obtain ⟨s₂, h2, hrel', hgone'⟩ := ih hnd' s₁ (done ++ entryLog w (w (t / 8 + i)))
        (howned.right hrel)
        (fun j hj => by rw [hother j hj]; exact hent j (List.mem_cons_of_mem _ hj))
        (fun a ha => by
          rw [hrel.word a (howned.offMaps a (inTables_append.mpr (Or.inr ha))) ?_]
          · exact hbelow a (inTables_append.mpr (Or.inr ha))
          · rintro (rfl | ha')
            · exact hout i List.mem_cons_self (inTables_append.mpr (Or.inr ha))
            · exact hin ha ha')
        (fun j hj hm => hmap j (List.mem_cons_of_mem _ hj) (hrel.maps _ hm))
        (fun j hj ha => hout j (List.mem_cons_of_mem _ hj) (inTables_append.mpr (Or.inr ha)))
      refine ⟨s₂, ?_, hrel.trans hrel' ?_ ?_, ?_⟩
      · rw [List.foldlM_cons, h1, List.flatMap_cons, ← List.append_assoc]
        exact h2
      · rintro a (rfl | ha)
        · exact Or.inl ⟨i, List.mem_cons_self, rfl⟩
        · rw [List.flatMap_cons]
          exact Or.inr (inTables_append.mpr (Or.inl ha))
      · rintro a (⟨j, hj, rfl⟩ | ha)
        · exact Or.inl ⟨j, List.mem_cons_of_mem _ hj, rfl⟩
        · rw [List.flatMap_cons]
          exact Or.inr (inTables_append.mpr (Or.inr ha))
      · refine List.forall_mem_cons.mpr ⟨?_, hgone'⟩
        rw [hrel'.word]
        · exact hgone
        · exact fun hm => hmap i List.mem_cons_self (hrel.maps _ hm)
        · rintro (⟨j, hj, he⟩ | ha)
          · exact hi (by rwa [Nat.add_left_cancel he])
          · exact hout i List.mem_cons_self (inTables_append.mpr (Or.inr ha))

/-! ## The four loops -/

theorem KMem.write_self (s : KMem) (a : Nat) (v : BitVec 64) : (s.write a v).word (a / 8) = v :=
  Function.update_self ..

theorem freePte_spec (hd : DirectMap m₀ pool) : EntrySpec m₀ pool freePte pteLog := by
  intro w t i s done rest out ht howned hent _ hmap _
  have hword := entry_div ht i
  unfold freePte
  dsimp only
  rw [hword, hent]
  unfold pteLog at howned ⊢
  by_cases hp : w (t / 8 + i) &&& PEA_PRESENT = 0
  · rw [if_neg (not_not.mpr hp)] at howned ⊢
    rw [if_neg (not_not.mpr hp), List.append_nil]
    exact ⟨s, rfl, howned.nothing, Or.inr ⟨rfl, hent⟩⟩
  · rw [if_pos hp] at howned ⊢
    rw [if_pos hp]
    have hok : BlockOk m₀ (page4KIndex (entryAddr (w (t / 8 + i))), 0) :=
      howned.ok (.frame _) (List.mem_singleton_self _)
    obtain ⟨zi, hz, hin⟩ := hok.zone
    have hlt : page4KIndex (entryAddr (w (t / 8 + i))) < s.mms.pagesCount := by
      rw [howned.holds.layout.pagesCount]
      exact hd.frames zi hz _ (hin _ (mem_self _ 0))
    rw [if_pos hlt]
    have hholds : Holds m₀ pool s rest
        (fun x => ind (page4KIndex (entryAddr (w (t / 8 + i)))) (getOrder 1) x + out x) := by
      rw [getOrder_page]
      exact howned.holds
    obtain ⟨m', he, hholds'⟩ := hholds.pagesGiven (by rw [getOrder_page]; exact hok)
    have hfree : s.freePage4K (page4KIndex (entryAddr (w (t / 8 + i))))
        = some { s with mms := m' } := by
      unfold KMem.freePage4K Talios.freePage4K
      rw [he]
      rfl
    have hmap' : ¬ KMem.MapWord { s with mms := m' } ((t + i * 8) / 8) := by
      rw [hword]
      exact hmap
    have hgone := KMem.write_self { s with mms := m' } (t + i * 8) 0
    have hrel := hholds'.writes hmap' 0
    rw [hword] at hgone hrel
    rw [hfree]
    exact ⟨_, rfl, ⟨hrel.holds, hrel.maps, fun a ha hdirty =>
      hrel.word a ha (fun hx => hdirty (Or.inl hx))⟩, Or.inl hgone⟩

/-- **A table is freed** behind what its entries hold, and the entry that names it is cleared. -/
theorem EntrySpec.table (hp : PoolLayout m₀ pool)
    {step : Nat → TableFreeing → Nat → Option TableFreeing}
    {entryLog : Memory → BitVec 64 → List TableRelease} (hstep : EntrySpec m₀ pool step entryLog)
    (w : Memory) {t : Nat} (ht : PAGE_4K_SIZE ∣ t) {s : KMem} (done : List TableRelease)
    {rest : List Obj} {out : Nat → Nat} (entry : Nat)
    (howned : Owned m₀ pool s (tableLog entryLog w t) rest out)
    (hbelow : ∀ a, InTables (tableLog entryLog w t) a → s.word a = w a)
    (hmap : ¬ s.MapWord (entry / 8)) :
    ∃ s', ((List.range 512).foldlM (step t) ⟨s, done⟩).bind (freeTable t entry)
        = some ⟨s', done ++ tableLog entryLog w t⟩ ∧
      Releases m₀ pool s s' rest out
        (fun a => a = entry / 8 ∨ InTables (tableLog entryLog w t) a) ∧
      s'.word (entry / 8) = 0 := by
  unfold tableLog at howned hbelow ⊢
  have hin : ∀ i ∈ List.range 512, InTables [.table t] (t / 8 + i) := by
    intro i hi
    have := List.mem_range.mp hi
    exact (inTables_table t).mpr ⟨by omega, by omega⟩
  have hself : ∀ i ∈ List.range 512,
      InTables ((List.range 512).flatMap (fun i => entryLog w (w (t / 8 + i))) ++ [.table t])
        (t / 8 + i) := fun i hi => inTables_append.mpr (Or.inr (hin i hi))
  obtain ⟨s₁, h1, hrel, -⟩ := hstep.loop w ht _ _ (List.range 512) List.nodup_range s done howned.left
    (fun i hi => hbelow _ (hself i hi)) (fun a ha => hbelow a (inTables_append.mpr (Or.inl ha)))
    (fun i hi => howned.offMaps _ (hself i hi))
    (fun i hi ha => inTables_disjoint howned.ok howned.distinct ha (hin i hi))
  -- the table itself
  have hholds : Holds m₀ pool s₁ (⟨t, PAGE_4K_SIZE⟩ :: rest) out := by
    have hx := hrel.holds
    have hzero : (fun x => framesOf [.table t] x + out x) = out := by
      funext x
      rw [framesOf_table, Nat.zero_add]
    rw [hzero] at hx
    exact hx
  obtain ⟨s₂, h2, hholds₂, hframe⟩ := hholds.kfree hp
  have hmap₂ : ¬ s₂.MapWord (entry / 8) := fun hm => hmap (hrel.maps _ (hframe.mapWord hm))
  have hrel₂ := hholds₂.writes hmap₂ 0
  refine ⟨s₂.write entry 0, ?_, ⟨hrel₂.holds, fun a ha => hrel.maps a (hframe.mapWord ha),
    fun a ha hd => ?_⟩, KMem.write_self s₂ entry 0⟩
  · rw [h1, Option.bind_some, freeTable]
    dsimp only
    have h2' : Talios.kfree s₁ t = some (s₂, true) := h2
    rw [h2', List.append_assoc]
    rfl
  · have ha₁ : ¬ s₁.MapWord a := fun hm => ha (hrel.maps a hm)
    rw [hrel₂.word a (fun hm => ha₁ (hframe.mapWord hm)) (fun hx => hd (Or.inl hx)), hframe.word a ha₁]
    refine hrel.word a ha ?_
    rintro (⟨i, hi, rfl⟩ | hx)
    · exact hd (Or.inr (hself i hi))
    · exact hd (Or.inr (inTables_append.mpr (Or.inl hx)))

theorem freePde_spec (hd : DirectMap m₀ pool) : EntrySpec m₀ pool freePde pdeLog := by
  intro w t i s done rest out ht howned hent hbelow hmap hout
  have hword := entry_div ht i
  unfold freePde
  dsimp only
  rw [hword, hent]
  unfold pdeLog at howned hbelow hout ⊢
  by_cases h0 : w (t / 8 + i) = 0
  · rw [if_pos h0] at howned ⊢
    rw [if_pos h0, List.append_nil]
    exact ⟨s, rfl, howned.nothing, Or.inr ⟨rfl, hent⟩⟩
  rw [if_neg h0] at howned hbelow hout ⊢
  rw [if_neg h0]
  by_cases hps : w (t / 8 + i) &&& PEA_PAGE_SIZE = 0
  · rw [if_neg (not_not.mpr hps)] at howned hbelow hout ⊢
    rw [if_neg (not_not.mpr hps)]
    have htable := (freePte_spec hd).table hd.toPoolLayout w (tableFromEntry_aligned _) done
      (t + i * 8) howned hbelow (by rw [hword]; exact hmap)
    rw [hword] at htable
    obtain ⟨s', h1, hrel, hgone⟩ := htable
    exact ⟨s', h1, hrel, Or.inl hgone⟩
  · rw [if_pos hps] at howned ⊢
    rw [if_pos hps]
    have hok : BlockOk m₀ (blockOf (w (t / 8 + i)), 9) :=
      howned.ok (.block _) (List.mem_singleton_self _)
    have hholds : Holds m₀ pool s rest
        (fun x => ind (blockOf (w (t / 8 + i))) (getOrder (1 * 2 ^ 9)) x + out x) := by
      rw [getOrder_block]
      exact howned.holds
    obtain ⟨m', he, hholds'⟩ := hholds.pagesGiven (by rw [getOrder_block]; exact hok)
    have hmap' : ¬ KMem.MapWord { s with mms := m' } ((t + i * 8) / 8) := by
      rw [hword]
      exact hmap
    have hgone := KMem.write_self { s with mms := m' } (t + i * 8) 0
    have hrel := hholds'.writes hmap' 0
    rw [hword] at hgone hrel
    unfold freePage
    rw [he]
    exact ⟨_, rfl, ⟨hrel.holds, hrel.maps, fun a ha hdirty =>
      hrel.word a ha (fun hx => hdirty (Or.inl hx))⟩, Or.inl hgone⟩

/-- The loops over the upper two tables pass over an entry that is zero or has `PEA_PAGE_SIZE`. -/
theorem EntrySpec.upper (hp : PoolLayout m₀ pool)
    {step : Nat → TableFreeing → Nat → Option TableFreeing}
    {entryLog : Memory → BitVec 64 → List TableRelease} (hstep : EntrySpec m₀ pool step entryLog) :
    EntrySpec m₀ pool
      (fun t s i =>
        let e := s.mem.word ((t + i * 8) / 8)
        if e = 0 ∨ e &&& PEA_PAGE_SIZE ≠ 0 then some s
        else
          let below := tableFromEntry e
          ((List.range 512).foldlM (step below) s).bind (freeTable below (t + i * 8)))
      (fun w e => if e = 0 ∨ e &&& PEA_PAGE_SIZE ≠ 0 then []
        else tableLog entryLog w (tableFromEntry e)) := by
  intro w t i s done rest out ht howned hent hbelow hmap hout
  have hword := entry_div ht i
  dsimp only at howned hbelow hout ⊢
  rw [hword, hent]
  by_cases hpass : w (t / 8 + i) = 0 ∨ w (t / 8 + i) &&& PEA_PAGE_SIZE ≠ 0
  · rw [if_pos hpass] at howned ⊢
    rw [if_pos hpass, List.append_nil]
    exact ⟨s, rfl, howned.nothing, Or.inr ⟨rfl, hent⟩⟩
  · rw [if_neg hpass] at howned hbelow hout ⊢
    rw [if_neg hpass]
    have htable := hstep.table hp w (tableFromEntry_aligned _) done (t + i * 8) howned hbelow
      (by rw [hword]; exact hmap)
    rw [hword] at htable
    obtain ⟨s', h1, hrel, hgone⟩ := htable
    exact ⟨s', h1, hrel, Or.inl hgone⟩

theorem freePdpte_spec (hd : DirectMap m₀ pool) : EntrySpec m₀ pool freePdpte pdpteLog :=
  (freePde_spec hd).upper hd.toPoolLayout

theorem freePml4e_spec (hd : DirectMap m₀ pool) : EntrySpec m₀ pool freePml4e pml4eLog :=
  (freePdpte_spec hd).upper hd.toPoolLayout

end

end Talios
