import Talios.Fs.Fat32
import Talios.Lib.Split
import Mathlib.Data.List.TakeWhile

set_option autoImplicit false

/-! # Walking a path

`path_walk` looks up the names of a path one after the other, from the root on. A pointer into the
path is what the string holds from there on. The array `name` has 256 bytes: a store outside it ends
the model. The function `lookup` of the nodes is any function, with any effect on the rest of the
system; `kmalloc` never fails.
-/

namespace Talios

open Bytes Word

/-! ## The function -/

/-- `sizeof(name)`. -/
def NAME_SIZE : Nat := 256

/-- `dir_entry`: its name, its node and its parent. -/
inductive DirEntry (ν : Type)
  | root (node : ν)
  | child (name : List UInt8) (node : ν) (parent : DirEntry ν)

/-- `dir_node`. -/
def DirEntry.dirNode {ν : Type} : DirEntry ν → ν
  | .root node => node
  | .child _ node _ => node

/-- What `path_walk` comes to: a store outside `name`, or the entry that it returns. -/
inductive WalkResult (ν : Type)
  | outside
  | returned (dentry : Option (DirEntry ν))

/-- `*end != '/' && *end != '\0'`. -/
def nameByte (c : UInt8) : Bool := c != 47 && c != 0

theorem length_dropWhile_lt {s : List UInt8} (h : s.takeWhile nameByte ≠ []) :
    (s.dropWhile nameByte).length < s.length := by
  have hsum := congrArg List.length (List.takeWhile_append_dropWhile (p := nameByte) (l := s))
  have hpos := List.length_pos_iff.mpr h
  rw [List.length_append] at hsum
  omega

section

variable {ν : Type} {m : Type → Type} [Monad m]

/-- `while(*end)`; `cDir` is null at first. -/
def pathWalkLoop (lookup : ν → List UInt8 → m (Option ν)) (endp : List UInt8)
    (parent : DirEntry ν) (cDir : Option (DirEntry ν)) : m (WalkResult ν) :=
  if endp.headD 0 = 0 then pure (.returned cDir)
  else
    let start := endp.dropWhile (· == 47)
    let name := start.takeWhile nameByte
    if _h : name = [] then pure (.returned (some parent))
    -- `name[end - start] = '\0'`
    else if NAME_SIZE ≤ name.length then pure .outside
    else do
      match ← lookup parent.dirNode name with
      | none => pure (.returned none)
      | some node =>
          pathWalkLoop lookup (start.dropWhile nameByte) (.child name node parent)
            (some (.child name node parent))
termination_by endp.length
decreasing_by
  exact (length_dropWhile_lt _h).trans_le (List.dropWhile_sublist _).length_le

/-- `path_walk`. -/
def pathWalk (lookup : ν → List UInt8 → m (Option ν)) (root : ν) (path : List UInt8) :
    m (WalkResult ν) :=
  pathWalkLoop lookup path (.root root) none

/-! ## What it is for -/

/-- The names of a path: what lies between the slashes. -/
def components (path : List UInt8) : List (List UInt8) := (path.splitOn 47).filter (· ≠ [])

/-- The names are looked up one after the other. -/
def walkFrom (lookup : ν → List UInt8 → m (Option ν)) :
    List (List UInt8) → DirEntry ν → m (Option (DirEntry ν))
  | [], dentry => pure (some dentry)
  | name :: names, dentry => do
      match ← lookup dentry.dirNode name with
      | none => pure none
      | some node => walkFrom lookup names (.child name node dentry)

end

/-! ## The names of a path -/

theorem components_nil : components [] = [] := rfl

/-- A slash separates what lies before it from what lies behind it. -/
theorem components_slash (p q : List UInt8) :
    components (p ++ 47 :: q) = components p ++ components q := by
  unfold components
  rw [List.splitOn_append_cons_self, List.filter_append]

theorem components_dropWhile (s : List UInt8) :
    components (s.dropWhile (· == 47)) = components s := by
  induction s with
  | nil => rfl
  | cons c s ih =>
      rw [List.dropWhile_cons]
      split
      · rename_i hc
        have hslash : c = 47 := by simpa using hc
        rw [ih, hslash]
        exact (components_slash [] s).symm
      · rfl

/-- One name. -/
theorem components_single {s : List UInt8} (hslash : 47 ∉ s) (hne : s ≠ []) :
    components s = [s] := by
  unfold components
  rw [List.splitOn_eq_singleton hslash]
  simp [hne]

/-- The first name of a path that does not begin with a slash, and the others. -/
theorem components_cons {s : List UInt8} (h0 : 0 ∉ s) (h : s.takeWhile nameByte ≠ []) :
    components s = s.takeWhile nameByte :: components (s.dropWhile nameByte) := by
  have hmem : 47 ∉ s.takeWhile nameByte := fun hc => by
    have := List.mem_takeWhile_imp hc
    simp [nameByte] at this
  have hself := List.takeWhile_append_dropWhile (p := nameByte) (l := s)
  have hsingle := components_single hmem h
  cases hd : s.dropWhile nameByte with
  | nil =>
      rw [hd, List.append_nil] at hself
      calc components s = components (s.takeWhile nameByte) := by rw [hself]
        _ = s.takeWhile nameByte :: components [] := by rw [hsingle, components_nil]
  | cons c r =>
      -- the name ends at a slash, as the path has no zero
      have hc : c = 47 := by
        have hnot : nameByte c = false := by
          have := List.head?_dropWhile_not nameByte s
          rw [hd] at this
          simpa using this
        have hne : c ≠ 0 := by
          rintro rfl
          apply h0
          rw [← hself, hd]
          simp
        simpa [nameByte, hne] using hnot
      rw [hd, hc] at hself
      calc components s = components (s.takeWhile nameByte ++ 47 :: r) := by rw [hself]
        _ = s.takeWhile nameByte :: components (c :: r) := by
          rw [components_slash, hsingle, hc]
          exact congrArg _ (components_slash [] r).symm

/-! ## The loop takes the names -/

section

variable {ν : Type} {m : Type → Type} [Monad m] {lookup : ν → List UInt8 → m (Option ν)}

theorem pathWalkLoop_nil (parent : DirEntry ν) (cDir : Option (DirEntry ν)) :
    pathWalkLoop lookup [] parent cDir = pure (.returned cDir) := by
  rw [pathWalkLoop]
  exact if_pos rfl

theorem headD_ne_zero {endp : List UInt8} (h0 : 0 ∉ endp) (hne : endp ≠ []) : endp.headD 0 ≠ 0 := by
  cases endp with
  | nil => exact absurd rfl hne
  | cons c s =>
      rintro hc
      apply h0
      rw [← show c = 0 from hc]
      simp

/-- **One round**: there is no further name, or the first one is looked up and the loop goes on with
what lies behind it. -/
theorem pathWalkLoop_step {endp : List UInt8} (h0 : 0 ∉ endp) (hne : endp ≠ [])
    (parent : DirEntry ν) (cDir : Option (DirEntry ν)) :
    (components endp = [] ∧
      pathWalkLoop lookup endp parent cDir = pure (.returned (some parent))) ∨
    ∃ name rest, components endp = name :: components rest ∧ 0 ∉ rest ∧
      rest.length < endp.length ∧
      pathWalkLoop lookup endp parent cDir
        = if NAME_SIZE ≤ name.length then pure .outside
          else lookup parent.dirNode name >>= fun r =>
            match r with
            | none => pure (.returned none)
            | some node =>
                pathWalkLoop lookup rest (.child name node parent)
                  (some (.child name node parent)) := by
  have hsub := List.dropWhile_sublist (l := endp) (· == 47)
  have hstart : 0 ∉ endp.dropWhile (· == 47) := fun h => h0 (hsub.subset h)
  rw [pathWalkLoop, if_neg (headD_ne_zero h0 hne)]
  by_cases hname : (endp.dropWhile (· == 47)).takeWhile nameByte = []
  · refine Or.inl ⟨?_, by dsimp only; rw [dif_pos hname]⟩
    -- a name that is empty is one in front of the end
    have hnil : endp.dropWhile (fun c => c == 47) = [] := by
      cases hs : endp.dropWhile (fun c => c == 47) with
      | nil => rfl
      | cons c s =>
          have h47 : (c == 47) = false := by
            have := List.head?_dropWhile_not (fun c => c == 47) endp
            rw [hs] at this
            simpa using this
          have hc0 : c ≠ 0 := by
            rintro rfl
            apply hstart
            rw [hs]
            simp
          have hc : nameByte c = true := by
            simp only [beq_eq_false_iff_ne] at h47
            simp [nameByte, h47, hc0]
          rw [hs, List.takeWhile_cons, if_pos hc] at hname
          cases hname
    rw [← components_dropWhile, hnil, components_nil]
  · refine Or.inr ⟨(endp.dropWhile (· == 47)).takeWhile nameByte, (endp.dropWhile (· == 47)).dropWhile nameByte, ?_, ?_, ?_, ?_⟩
    · exact (components_dropWhile endp).symm.trans (components_cons hstart hname)
    · exact fun h => hstart ((List.dropWhile_sublist _).subset h)
    · exact (length_dropWhile_lt hname).trans_le hsub.length_le
    · dsimp only
      rw [dif_neg hname]

variable [LawfulMonad m]

/-- The loop is the walk over the names, where these fit into `name`. -/
theorem pathWalkLoop_walkFrom (endp : List UInt8) (parent : DirEntry ν)
    (cDir : Option (DirEntry ν)) (h0 : 0 ∉ endp) (hne : endp ≠ [] ∨ cDir = some parent)
    (hlen : ∀ name ∈ components endp, name.length < NAME_SIZE) :
    pathWalkLoop lookup endp parent cDir
      = WalkResult.returned <$> walkFrom lookup (components endp) parent := by
  induction hk : endp.length using Nat.strong_induction_on generalizing endp parent cDir with
  | _ k ih =>
      by_cases hnil : endp = []
      · have hc := hne.resolve_left (fun h => h hnil)
        rw [hnil, hc, pathWalkLoop_nil, components_nil, walkFrom, map_pure]
      rcases @pathWalkLoop_step _ _ _ lookup _ h0 hnil parent cDir with
        ⟨hcomp, hloop⟩ | ⟨name, rest, hcomp, hrest, hlt, hloop⟩
      · rw [hloop, hcomp, walkFrom, map_pure]
      · have hfit : ¬ NAME_SIZE ≤ name.length :=
          Nat.not_le.mpr (hlen name (by rw [hcomp]; exact List.mem_cons_self))
        have hrec : ∀ d : DirEntry ν, pathWalkLoop lookup rest d (some d)
            = WalkResult.returned <$> walkFrom lookup (components rest) d := by
          intro d
          refine ih rest.length (hk ▸ hlt) rest d (some d) hrest (Or.inr rfl) ?_ rfl
          intro n hn
          exact hlen n (by rw [hcomp]; exact List.mem_cons_of_mem _ hn)
        rw [hloop, if_neg hfit, hcomp, walkFrom, map_bind]
        apply bind_congr
        intro r
        cases r with
        | none => exact (map_pure _ _).symm
        | some node => exact hrec _

/-- **`path_walk` resolves the names of a path** one after the other, and slashes at its start, at its
end or next to another slash change nothing. -/
theorem pathWalk_resolves (lookup : ν → List UInt8 → m (Option ν)) (root : ν) (path : List UInt8)
    (h0 : 0 ∉ path) (hne : path ≠ []) (hlen : ∀ name ∈ components path, name.length ≤ 255) :
    pathWalk lookup root path
      = WalkResult.returned <$> walkFrom lookup (components path) (.root root) ∧
    pathWalk lookup root (47 :: path) = pathWalk lookup root path ∧
    pathWalk lookup root (path ++ [47]) = pathWalk lookup root path ∧
    ∀ p q, path = p ++ 47 :: q →
      pathWalk lookup root (p ++ 47 :: 47 :: q) = pathWalk lookup root path := by
  -- the walk is a matter of the names
  have key : ∀ s : List UInt8, 0 ∉ s → s ≠ [] → components s = components path →
      pathWalk lookup root s = WalkResult.returned <$> walkFrom lookup (components path) (.root root) := by
    intro s hs hsne hcomp
    rw [← hcomp]
    apply pathWalkLoop_walkFrom s (.root root) none hs (Or.inl hsne)
    intro name hname
    rw [hcomp] at hname
    exact Nat.lt_succ_of_le (hlen name hname)
  have hpath := key path h0 hne rfl
  refine ⟨hpath, ?_, ?_, fun p q hpq => ?_⟩
  · rw [hpath]
    apply key (47 :: path)
    · simpa using h0
    · simp
    · exact components_slash [] path
  · rw [hpath]
    apply key (path ++ [47])
    · simpa using h0
    · simp
    · calc components (path ++ [47]) = components path ++ components [] := components_slash path []
        _ = components path := List.append_nil _
  · rw [hpath]
    rw [hpq] at h0
    apply key (p ++ 47 :: 47 :: q)
    · simpa using h0
    · simp
    · calc components (p ++ 47 :: 47 :: q)
          = components p ++ components (47 :: q) := components_slash p (47 :: q)
        _ = components p ++ components q := congrArg _ (components_slash [] q)
        _ = components path := by rw [hpq, components_slash]

end

/-- Some directories: the root has `a`, and `a` has `b`. -/
def exampleTree (node : Nat) (name : List UInt8) : Option (Option Nat) :=
  if node = 0 ∧ name = [97] then some (some 1)
  else if node = 1 ∧ name = [98] then some (some 2)
  else some none

theorem pathWalk_resolves_example :
    pathWalk exampleTree 0 [97, 47, 47, 98] = some (.returned
      (some (.child [98] 2 (.child [97] 1 (.root 0))))) :=
  (pathWalk_resolves exampleTree 0 [97, 47, 47, 98] (by decide) (by decide) (by decide)).1.trans
    rfl

/-! ## The paths that are passed -/

/-- `strnlen_user`. -/
def strnlenUser (mem : Buffer) (src size : Nat) : Nat :=
  if verifyArea src size then (List.range size).findIdx (fun i => mem (add64 src i) == 0) else 0

/-- `strncpy_from_user`: what the buffer `dst` holds. Nothing is copied where `copy_from_user` does
not verify the area. -/
def strncpyFromUser (mem : Buffer) (src : Nat) (dst : Buffer) (size : Nat) : Buffer :=
  let dst := if verifyArea src size then overlay dst 0 size (bytesAt mem src) else dst
  overlay dst size 1 (fun _ => 0)

/-- The path that `sys_open` and `sys_chdir` copy from the memory of the caller; none where they
return `-EFAULT` or `-ENAMETOOLONG`. -/
def userPath (mem : Buffer) (filename : Nat) : Option (List UInt8) :=
  let pathlen := strnlenUser mem filename PAGE_4K_SIZE
  if pathlen = 0 ∨ PAGE_4K_SIZE ≤ pathlen then none
  else
    let path := strncpyFromUser mem filename newBuffer pathlen
    some (((List.range PAGE_4K_SIZE).map path).takeWhile (· ≠ 0))

/-- A string in memory, up to the zero behind it. -/
structure StringAt (mem : Buffer) (p : Nat) (s : List UInt8) : Prop where
  bytes : ∀ i < s.length, mem (add64 p i) = s.getD i 0
  zero : mem (add64 p s.length) = 0
  nonzero : 0 ∉ s

/-- The system calls that walk a path. -/
inductive PathCall
  | sysOpen
  | sysChdir
  | sysExecve

/-- What `path_walk` gets from a call with the pointer `p`. `sys_execve` passes the pointer itself. -/
def PathCall.Passes (mem : Buffer) (p : Nat) (path : List UInt8) : PathCall → Prop
  | .sysOpen => userPath mem p = some path
  | .sysChdir => userPath mem p = some path
  | .sysExecve => StringAt mem p path

theorem PathCall.Passes.nonzero {mem : Buffer} {p : Nat} {path : List UInt8} {call : PathCall}
    (h : call.Passes mem p path) : 0 ∉ path := by
  have huser : userPath mem p = some path → 0 ∉ path := by
    intro h
    unfold userPath at h
    dsimp only at h
    split at h
    · cases h
    · rw [← Option.some.inj h]
      intro hmem
      have := List.mem_takeWhile_imp hmem
      simp at this
  cases call with
  | sysOpen => exact huser h
  | sysChdir => exact huser h
  | sysExecve => exact StringAt.nonzero h

/-- Every string of 1 to 4095 bytes below `TASK_SIZE` is passed on as it is. -/
theorem userPath_eq_some {mem : Buffer} {p : Nat} {s : List UInt8} (h : StringAt mem p s)
    (hne : s ≠ []) (hlen : s.length < PAGE_4K_SIZE) (hp : p + PAGE_4K_SIZE ≤ TASK_SIZE) :
    userPath mem p = some s := by
  have hpos := List.length_pos_iff.mpr hne
  have hverify : ∀ n ≤ PAGE_4K_SIZE, verifyArea p n = true := by
    intro n hn
    have hsum : add64 p n = p + n := Nat.mod_eq_of_lt (by unfold TASK_SIZE at hp; omega)
    unfold verifyArea
    rw [hsum, decide_eq_true_eq]
    omega
  have hbyte : ∀ i < s.length, mem (add64 p i) ≠ 0 := by
    intro i hi hz
    rw [h.bytes i hi, List.getD_eq_getElem _ _ hi] at hz
    exact h.nonzero (hz ▸ List.getElem_mem hi)
  have hlength : strnlenUser mem p PAGE_4K_SIZE = s.length := by
    unfold strnlenUser
    rw [if_pos (hverify _ le_rfl), List.findIdx_eq (by simpa using hlen)]
    constructor
    · simpa using h.zero
    · intro j hj
      simpa using hbyte j hj
  unfold userPath
  rw [hlength]
  dsimp only
  rw [if_neg (by omega)]
  have hself : s.takeWhile (· ≠ 0) = s := by
    rw [List.takeWhile_eq_self_iff]
    intro c hc
    rw [decide_eq_true_eq]
    rintro rfl
    exact h.nonzero hc
  refine congrArg some ((takeWhile_range ?_ ?_ hlen).trans hself)
  · intro i hi
    unfold strncpyFromUser
    rw [if_pos (hverify _ hlen.le), overlay_of_lt hi, overlay_zero_left hi]
    exact h.bytes i hi
  · unfold strncpyFromUser
    exact overlay_of_mem le_rfl (Nat.lt_succ_self _)

/-! ## Stores into `name` -/

section

variable {ν : Type} {lookup : ν → List UInt8 → Option (Option ν)}

/-- The names that are walked to fit into `name`. -/
def WalkedFit (lookup : ν → List UInt8 → Option (Option ν)) (names : List (List UInt8))
    (parent : DirEntry ν) : Prop :=
  ∀ pre name post dentry, names = pre ++ name :: post →
    walkFrom lookup pre parent = some (some dentry) → name.length < NAME_SIZE

theorem walkedFit_nil (parent : DirEntry ν) : WalkedFit lookup [] parent := by
  intro pre name post dentry h
  simp at h

/-- The first name is walked to at once, the others behind it. -/
theorem walkedFit_cons {name : List UInt8} {names : List (List UInt8)} {parent : DirEntry ν} :
    WalkedFit lookup (name :: names) parent ↔ name.length < NAME_SIZE ∧
      ∀ node, lookup parent.dirNode name = some (some node) →
        WalkedFit lookup names (.child name node parent) := by
  constructor
  · intro h
    refine ⟨h [] name names parent rfl rfl, fun node hnode pre name' post dentry hpre hwalk => ?_⟩
    apply h (name :: pre) name' post dentry (by rw [hpre, List.cons_append])
    rw [walkFrom, hnode]
    exact hwalk
  · rintro ⟨hname, hall⟩ pre name' post dentry hpre
    refine (Split.forall_cons (P := fun pre name' => ∀ dentry,
      walkFrom lookup pre parent = some (some dentry) → name'.length < NAME_SIZE) name names).mpr
      ⟨fun _ _ => hname, fun pre name' post hpre dentry hwalk => ?_⟩ pre name' post hpre dentry
    -- the walk to a later name goes by way of the first one
    rw [walkFrom] at hwalk
    cases hnode : lookup parent.dirNode name with
    | none =>
        rw [hnode] at hwalk
        cases hwalk
    | some r =>
        rw [hnode] at hwalk
        cases r with
        | none => cases hwalk
        | some node => exact hall node hnode pre name' post dentry hpre hwalk

/-- The loop stays inside `name` where every name that is walked to fits into it. -/
theorem pathWalkLoop_inside (endp : List UInt8) (parent : DirEntry ν)
    (cDir : Option (DirEntry ν)) (h0 : 0 ∉ endp) :
    pathWalkLoop lookup endp parent cDir ≠ some .outside ↔
      WalkedFit lookup (components endp) parent := by
  induction hk : endp.length using Nat.strong_induction_on generalizing endp parent cDir with
  | _ k ih =>
      by_cases hnil : endp = []
      · rw [hnil, pathWalkLoop_nil, components_nil]
        exact iff_of_true (fun h => nomatch h) (walkedFit_nil parent)
      rcases @pathWalkLoop_step _ _ _ lookup _ h0 hnil parent cDir with
        ⟨hcomp, hloop⟩ | ⟨name, rest, hcomp, hrest, hlt, hloop⟩
      · rw [hloop, hcomp]
        exact iff_of_true (fun h => nomatch h) (walkedFit_nil parent)
      · rw [hloop, hcomp, walkedFit_cons]
        by_cases hfit : NAME_SIZE ≤ name.length
        · rw [if_pos hfit]
          exact iff_of_false (fun h => h rfl) (fun h => absurd h.1 (by omega))
        rw [if_neg hfit]
        cases hnode : lookup parent.dirNode name with
        | none => exact iff_of_true (fun h => nomatch h) ⟨by omega, fun node h => nomatch h⟩
        | some r =>
            cases r with
            | none => exact iff_of_true (fun h => nomatch h) ⟨by omega, fun node h => nomatch h⟩
            | some node =>
                have hrec := ih rest.length (hk ▸ hlt) rest (.child name node parent)
                  (some (.child name node parent)) hrest rfl
                refine Iff.trans hrec ⟨fun h => ⟨by omega, fun n hn => ?_⟩, fun h => h.2 node rfl⟩
                cases hn
                exact h

/-- **The stores into `name`** lie inside where every name that `path_walk` comes to has at most 255
letters. -/
theorem pathWalk_inside (lookup : ν → List UInt8 → Option (Option ν)) (root : ν) (call : PathCall)
    (mem : Buffer) (p : Nat) (path : List UInt8) (h : call.Passes mem p path) :
    pathWalk lookup root path ≠ some .outside ↔
      ∀ pre name post dentry, components path = pre ++ name :: post →
        walkFrom lookup pre (.root root) = some (some dentry) → name.length ≤ 255 := by
  have hloop := @pathWalkLoop_inside _ lookup path (.root root) none h.nonzero
  refine hloop.trans ⟨fun hall pre name post dentry hpre hwalk => ?_,
    fun hall pre name post dentry hpre hwalk => ?_⟩
  · exact Nat.le_of_lt_succ (hall pre name post dentry hpre hwalk)
  · exact Nat.lt_succ_of_le (hall pre name post dentry hpre hwalk)

end

/-- A string of 256 letters. -/
def longPath : Buffer := fun a => if a < 256 then 97 else 0

theorem longPath_string : StringAt longPath 0 (List.replicate 256 97) where
  bytes := by
    intro i hi
    rw [List.length_replicate] at hi
    have hmod : add64 0 i = i := by
      unfold add64
      omega
    rw [hmod, List.getD_eq_getElem _ _ (by rwa [List.length_replicate]), List.getElem_replicate]
    exact if_pos hi
  zero := by
    rw [List.length_replicate]
    decide
  nonzero := fun h => absurd (List.eq_of_mem_replicate h) (by decide)

theorem shortPath_string : StringAt (fun a => if a = 0 then 97 else 0) 0 [97] where
  bytes := by
    intro i hi
    have h0 : i = 0 := by simpa using hi
    rw [h0]
    rfl
  zero := rfl
  nonzero := by decide

theorem pathWalk_inside_example : pathWalk exampleTree 0 [97] ≠ some .outside :=
  (pathWalk_inside exampleTree 0 .sysExecve _ 0 [97] shortPath_string).mpr (by
    intro pre name post dentry hpre _
    have hcomp : components [97] = [[97]] := by decide
    rw [hcomp] at hpre
    have hmem : name ∈ [[(97 : UInt8)]] := by
      rw [hpre]
      simp
    rw [List.mem_singleton.mp hmem]
    decide)

theorem pathWalk_outside : ¬ ∀ (ν : Type) (lookup : ν → List UInt8 → Option (Option ν)) (root : ν)
    (call : PathCall) (mem : Buffer) (p : Nat) (path : List UInt8), call.Passes mem p path →
    pathWalk lookup root path ≠ some .outside := by
  intro hall
  have hlen : (List.replicate 256 (97 : UInt8)).length = 256 := List.length_replicate
  have hne : List.replicate 256 (97 : UInt8) ≠ [] := List.ne_nil_of_length_pos (by omega)
  have hpass : PathCall.sysOpen.Passes longPath 0 (List.replicate 256 97) := by
    apply userPath_eq_some longPath_string hne
    · rw [hlen]
      decide
    · decide
  have hslash : (47 : UInt8) ∉ List.replicate 256 97 := fun h =>
    absurd (List.eq_of_mem_replicate h) (by decide)
  have hin := hall Nat exampleTree 0 .sysOpen longPath 0 _ hpass
  have hfit := (pathWalkLoop_inside _ _ none longPath_string.nonzero).mp hin []
    (List.replicate 256 97) [] (.root 0) (components_single hslash hne) rfl
  rw [hlen] at hfit
  exact absurd hfit (by decide)

end Talios
