import Talios.User.Strings

set_option autoImplicit false

/-! # The current directory

`cd_command` of the shell, which joins the current directory and its argument in a block of its own and, for
the argument "..", looks for the last '/' of the current directory. `current_dir` is the memory from there
on, since the loop of the second goes up and leaves the string. The literal "/" of the comparison is an
object of its own.

On strings a call is `Call.next`: `Call.Returns.next` has the string that every call which comes to an end
leaves behind. So "cd .." takes a '/' at the end away and nothing else, and never undoes a "cd d"; the
current directory is in order as long as no call that succeeds has an argument with '/' at its end.
-/

namespace Talios

open Bytes Strings

namespace ChangeDir

/-! ## `init.c` -/

/-- The first value that `int` does not have. -/
def INT_END : Nat := 2 ^ 31

/-- The string at a pointer. -/
def readString (fuel : Nat) (buf : Buffer) : Option (List UInt8) :=
  (strlen fuel buf).map (fun n => (List.range n).map buf)

/-- `len - 1`; there is no character in front of an empty string. -/
def lastIndex (len : Nat) : Option Nat := if len = 0 then none else some (len - 1)

/-- `cd_command` where `argv[1]` is `arg`, `malloc` returns a block that holds `raw`, and `chdir` returns
what it does for a path: the value, and the memory from `current_dir` on. -/
def cdCommand (chdir : List UInt8 → Int) (fuel argc : Nat) (arg raw currentDir : Buffer) :
    Option (Int × Buffer) := do
  let len ← strlen fuel currentDir
  if argc < 2 then pure (-1, currentDir)
  else do
    let dot ← strcmp fuel arg (literal [46])
    if dot = 0 then pure (1, currentDir)
    else do
      let last ← lastIndex len
      let dots ← strcmp fuel arg (literal [46, 46])
      if dots = 0 then do
        let root ← strcmp fuel (literal [47]) currentDir
        if root = 0 then pure (1, currentDir)
        else do
          -- `for(i = len - 1; i >= 0; i++)`: what follows the last value of `int` is not defined
          let i ← seek (· != 47) currentDir (INT_END - last) last
          pure (1, Function.update currentDir i 0)
      else do
        let n ← strlen fuel arg
        let path := overlay raw 0 (len + n + 2) (fun _ => 0)
        let path ← strcpy fuel currentDir path
        let path := if currentDir last ≠ 47 then
            Function.update (Function.update path len 47) (len + 1) 0
          else path
        let path ← strncat fuel path arg (n + 1)
        let s ← readString fuel path
        if chdir s = 0 then do
          let currentDir ← strcpy fuel path currentDir
          pure (1, currentDir)
        else pure (1, currentDir)

/-! ## Calls -/

/-- A call: its arguments, with the word that `argv[1]` is, and what `malloc` and `chdir` return in it. -/
structure Call where
  argc : Nat
  arg : Buffer
  word : List UInt8
  holds : HasString arg word
  nonempty : word ≠ []
  raw : Buffer
  chdir : List UInt8 → Int

/-- The path that a directory and a name make. -/
def join (s d : List UInt8) : List UInt8 := if s.getLast? = some 47 then s ++ d else s ++ 47 :: d

namespace Call

/-- The call comes to an end: from a number of rounds on they are enough. -/
def Returns (c : Call) (dir : Buffer) (ret : Int) (dir' : Buffer) : Prop :=
  ∃ enough, ∀ fuel, enough ≤ fuel → cdCommand c.chdir fuel c.argc c.arg c.raw dir = some (ret, dir')

/-- What a call makes of the string in `current_dir`. -/
def next (c : Call) (s : List UInt8) : List UInt8 :=
  if c.argc < 2 ∨ c.word = [46] then s
  else if c.word = [46, 46] then if s ≠ [47] ∧ s.getLast? = some 47 then s.dropLast else s
  else if c.chdir (join s c.word) = 0 then join s c.word else s

end Call

/-- What a run of calls that all meet a condition leaves in `current_dir`. -/
inductive Run (ok : Call → List UInt8 → Prop) : Buffer → Prop
  | start {dir : Buffer} : HasString dir [47] → Run ok dir
  | step {dir dir' : Buffer} {s : List UInt8} {c : Call} {ret : Int} : Run ok dir → HasString dir s →
      ok c s → c.Returns dir ret dir' → Run ok dir'

/-! ## One call -/

theorem join_ne_nil {s d : List UInt8} (hd : d ≠ []) : join s d ≠ [] := by
  unfold join
  split <;> simp [hd]

/-- A joined path ends as the name does. -/
theorem getLast?_join {s d : List UInt8} (hd : d ≠ []) : (join s d).getLast? = d.getLast? := by
  unfold join
  obtain ⟨x, hx⟩ := Option.isSome_iff_exists.mp (List.getLast?_isSome.mpr hd)
  split
  · rw [List.getLast?_append, hx]
    rfl
  · rw [List.getLast?_append, List.getLast?_cons, hx]
    rfl

theorem length_join {s d : List UInt8} (hd : d ≠ []) : s.length < (join s d).length := by
  have hpos := List.length_pos_iff.mpr hd
  unfold join
  split
  · rw [List.length_append]
    omega
  · rw [List.length_append, List.length_cons]
    omega

theorem length_join_le {s d : List UInt8} : (join s d).length ≤ s.length + d.length + 1 := by
  unfold join
  split
  · rw [List.length_append]
    omega
  · rw [List.length_append, List.length_cons]
    omega

section

variable {dir arg raw : Buffer} {s w : List UInt8} {fuel argc : Nat} {chdir : List UInt8 → Int}

/-- The last character of the string. -/
theorem last_eq (hs : HasString dir s) (hne : s ≠ []) : s.getLast? = some (dir (s.length - 1)) := by
  have hpos := List.length_pos_iff.mpr hne
  rw [hs.bytes _ (by omega), List.getD_eq_getElem _ _ (by omega), List.getLast?_eq_getElem?]
  exact List.getElem?_eq_getElem (by omega)

/-- The arguments for which nothing happens. -/
theorem cdCommand_stay (hs : HasString dir s) (hw : HasString arg w) (hsf : s.length < fuel)
    (hwf : w.length < fuel) (hstay : argc < 2 ∨ w = [46]) :
    ∃ ret, cdCommand chdir fuel argc arg raw dir = some (ret, dir) := by
  obtain ⟨v, hv, hdot⟩ := strcmp_eq hw (hasString_literal (show (0 : UInt8) ∉ [46] by decide)) hwf
  unfold cdCommand
  simp only [Option.bind_eq_bind, strlen_eq hs hsf, Option.bind_some]
  by_cases hargc : argc < 2
  · exact ⟨-1, if_pos hargc⟩
  · refine ⟨1, ?_⟩
    rw [if_neg hargc, hv, Option.bind_some, if_pos (hdot.mpr (hstay.resolve_left hargc))]
    rfl

/-- "cd .." above the root: the loop goes up from the last character to the next '/'. -/
theorem cdCommand_up (hs : HasString dir s) (hne : s ≠ []) (hw : HasString arg [46, 46])
    (hsf : s.length < fuel) (hf : 2 < fuel) (hargc : ¬ argc < 2) :
    cdCommand chdir fuel argc arg raw dir
      = if s = [47] then some (1, dir)
        else (seek (· != 47) dir (INT_END - (s.length - 1)) (s.length - 1)).map
          (fun i => (1, Function.update dir i 0)) := by
  have hpos := List.length_pos_iff.mpr hne
  obtain ⟨v, hv, hdot⟩ := strcmp_eq hw (hasString_literal (show (0 : UInt8) ∉ [46] by decide)) hf
  obtain ⟨v', hv', hdots⟩ := strcmp_eq hw (hasString_literal (show (0 : UInt8) ∉ [46, 46] by decide)) hf
  obtain ⟨v'', hv'', hroot⟩ := strcmp_eq (hasString_literal (show (0 : UInt8) ∉ [47] by decide)) hs
    (show [47].length < fuel by simp; omega)
  have hv0 : v ≠ 0 := fun h => absurd (hdot.mp h) (by decide)
  have hlast : lastIndex s.length = some (s.length - 1) := if_neg (by omega)
  unfold cdCommand
  simp only [Option.bind_eq_bind, strlen_eq hs hsf, Option.bind_some, hv, hv', hv'', hlast]
  rw [if_neg hargc, if_neg hv0, if_pos (hdots.mpr rfl)]
  by_cases hsr : s = [47]
  · rw [if_pos (hroot.mpr hsr.symm), if_pos hsr]
    rfl
  · rw [if_neg (fun h => hsr (hroot.mp h).symm), if_neg hsr]
    cases seek (· != 47) dir (INT_END - (s.length - 1)) (s.length - 1) with
    | none => rfl
    | some i => rfl

/-- Any other argument: the path is joined, and becomes the current directory if `chdir` returns 0. -/
theorem cdCommand_join (chdir : List UInt8 → Int) (raw : Buffer) (hs : HasString dir s) (hne : s ≠ [])
    (hw : HasString arg w) (hargc : ¬ argc < 2) (hdot : w ≠ [46]) (hdots : w ≠ [46, 46]) :
    ∃ path, HasString path (join s w) ∧ ∀ fuel, s.length + w.length + 1 < fuel →
      cdCommand chdir fuel argc arg raw dir
        = some (1, if chdir (join s w) = 0 then overlay dir 0 ((join s w).length + 1) path else dir) := by
  have hpos := List.length_pos_iff.mpr hne
  have hlen := @length_join_le s w
  have hlast : lastIndex s.length = some (s.length - 1) := if_neg (by omega)
  -- the front of the path, up to where the argument goes
  obtain ⟨t, front, ht, htl, hfront, hpath⟩ : ∃ t front, t ++ w = join s w ∧ t.length ≤ s.length + 1 ∧
      HasString front t ∧
      (if dir (s.length - 1) ≠ 47 then
          Function.update (Function.update (overlay (overlay raw 0 (s.length + w.length + 2) (fun _ => 0)) 0
            (s.length + 1) dir) s.length 47) (s.length + 1) 0
        else overlay (overlay raw 0 (s.length + w.length + 2) (fun _ => 0)) 0 (s.length + 1) dir)
        = front := by
    have hcopy : HasString (overlay (overlay raw 0 (s.length + w.length + 2) (fun _ => 0)) 0
        (s.length + 1) dir) s := hasString_copy hs
    unfold join
    rw [last_eq hs hne]
    by_cases hslash : dir (s.length - 1) = 47
    · exact ⟨s, _, (if_pos (congrArg some hslash)).symm, by omega, hcopy, if_neg (not_not.mpr hslash)⟩
    · refine ⟨s ++ [47], _, ?_, by simp, hcopy.push (by decide), if_pos hslash⟩
      rw [if_neg (fun h => hslash (Option.some.inj h)), List.append_assoc]
      rfl
  have hfull : HasString (overlay front t.length (w.length + 1) arg) (join s w) :=
    ht ▸ hasString_append hfront.bytes hfront.nonzero hw
  refine ⟨_, hfull, fun fuel hf => ?_⟩
  obtain ⟨v, hv, hv0⟩ := strcmp_eq hw (hasString_literal (show (0 : UInt8) ∉ [46] by decide))
    (show w.length < fuel by omega)
  obtain ⟨v', hv', hv0'⟩ := strcmp_eq hw (hasString_literal (show (0 : UInt8) ∉ [46, 46] by decide))
    (show w.length < fuel by omega)
  have hread : readString fuel (overlay front t.length (w.length + 1) arg) = some (join s w) := by
    rw [readString, strlen_eq hfull (by omega), Option.map_some, map_range_eq hfull]
  unfold cdCommand
  simp only [Option.bind_eq_bind, strlen_eq hs (show s.length < fuel by omega), Option.bind_some, hv, hv',
    hlast, strlen_eq hw (show w.length < fuel by omega), strcpy_eq hs (show s.length < fuel by omega), hpath,
    strncat_eq hfront hw (show t.length < fuel by omega) (Nat.lt_succ_self _), hread]
  rw [if_neg hargc, if_neg (fun h => hdot (hv0.mp h)), if_neg (fun h => hdots (hv0'.mp h))]
  by_cases hc : chdir (join s w) = 0
  · rw [if_pos hc, if_pos hc, strcpy_eq hfull (by omega)]
    rfl
  · rw [if_neg hc, if_neg hc]
    rfl

end

/-- **A call on strings.** Every call that comes to an end leaves the string `next` in `current_dir`. -/
theorem Call.Returns.next {c : Call} {dir dir' : Buffer} {ret : Int} {s : List UInt8}
    (h : c.Returns dir ret dir') (hs : HasString dir s) (hne : s ≠ []) : HasString dir' (c.next s) := by
  obtain ⟨enough, h⟩ := h
  obtain ⟨fuel, hle, hbig⟩ : ∃ fuel, enough ≤ fuel ∧ s.length + c.word.length + 2 < fuel :=
    ⟨enough + s.length + c.word.length + 3, by omega, by omega⟩
  have hrun := h fuel hle
  unfold Call.next
  by_cases hstay : c.argc < 2 ∨ c.word = [46]
  · obtain ⟨ret', hcall⟩ := @cdCommand_stay dir c.arg c.raw s c.word fuel c.argc c.chdir hs c.holds
      (by omega) (by omega) hstay
    obtain ⟨-, rfl⟩ := Prod.mk.inj (Option.some.inj (hcall.symm.trans hrun))
    rw [if_pos hstay]
    exact hs
  · have hargc : ¬ c.argc < 2 := fun h => hstay (Or.inl h)
    rw [if_neg hstay]
    by_cases hup : c.word = [46, 46]
    · rw [cdCommand_up hs hne (hup ▸ c.holds) (by omega) (by omega) hargc] at hrun
      rw [if_pos hup]
      by_cases hroot : s = [47]
      · rw [if_pos hroot] at hrun
        obtain ⟨-, rfl⟩ := Prod.mk.inj (Option.some.inj hrun)
        rw [if_neg (fun h => h.1 hroot)]
        exact hs
      · rw [if_neg hroot] at hrun
        obtain ⟨i, hi, heq⟩ := Option.map_eq_some_iff.mp hrun
        obtain ⟨-, rfl⟩ := Prod.mk.inj heq
        obtain ⟨hle, hslash, hfirst⟩ := of_seek hi
        have hslash' : dir i = 47 := by simpa using hslash
        have hcut := hs.cut i
        by_cases hlast : dir (s.length - 1) = 47
        · -- a '/' at the end is taken away
          have hi' : i = s.length - 1 := by
            by_contra hne'
            exact absurd hlast (by simpa using hfirst _ le_rfl (by omega))
          rw [if_pos ⟨hroot, (last_eq hs hne).trans (congrArg some hlast)⟩, List.dropLast_eq_take, ← hi']
          exact hcut
        · -- the loop has left the string
          have hi' : i ≠ s.length - 1 := fun he => hlast (he ▸ hslash')
          rw [if_neg (fun h => hlast (Option.some.inj ((last_eq hs hne).symm.trans h.2)))]
          rwa [List.take_of_length_le (by omega)] at hcut
    · obtain ⟨path, hpath, hcall⟩ := cdCommand_join c.chdir c.raw hs hne c.holds hargc
        (fun h => hstay (Or.inr h)) hup
      obtain ⟨-, rfl⟩ := Prod.mk.inj (Option.some.inj ((hcall fuel (by omega)).symm.trans hrun))
      rw [if_neg hup]
      by_cases hc : c.chdir (join s c.word) = 0
      · rw [if_pos hc, if_pos hc]
        exact hasString_copy hpath
      · rw [if_neg hc, if_neg hc]
        exact hs

/-! ## Runs -/

/-- The current directory is in order. -/
def IsPath (s : List UInt8) : Prop := s = [47] ∨ s.head? = some 47 ∧ s.getLast? ≠ some 47

/-- A call whose argument does not end in '/', or that changes nothing. -/
def Call.Plain (c : Call) (s : List UInt8) : Prop :=
  c.argc < 2 ∨ c.word.getLast? ≠ some 47 ∨ c.chdir (join s c.word) ≠ 0

theorem Call.next_ne_nil {c : Call} {s : List UInt8} (hne : s ≠ []) : c.next s ≠ [] := by
  unfold Call.next
  split
  · exact hne
  · split
    · split
      next h =>
        intro hnil
        obtain ⟨x, rfl⟩ := List.length_eq_one_iff.mp (show s.length = 1 by
          have hlen := congrArg List.length hnil
          have hpos := List.length_pos_iff.mpr hne
          rw [List.length_dropLast, List.length_nil] at hlen
          omega)
        exact h.1 (congrArg (fun y => [y]) (Option.some.inj h.2))
      next => exact hne
    · split
      · exact join_ne_nil c.nonempty
      · exact hne

theorem IsPath.ne_nil {s : List UInt8} (h : IsPath s) : s ≠ [] := by
  rintro rfl
  rcases h with h | h
  · exact absurd h (by decide)
  · exact absurd h.1 (by decide)

theorem IsPath.head {s : List UInt8} (h : IsPath s) : s.head? = some 47 := by
  rcases h with rfl | h
  · rfl
  · exact h.1

/-- A joined path is in order exactly if the name does not end in '/'. -/
theorem isPath_join {s d : List UInt8} (h : IsPath s) (hd : d ≠ []) :
    IsPath (join s d) ↔ d.getLast? ≠ some 47 := by
  have hlong : join s d ≠ [47] := by
    intro he
    have hlen := @length_join s d hd
    have hpos := List.length_pos_iff.mpr h.ne_nil
    rw [he, List.length_singleton] at hlen
    omega
  have hhead : (join s d).head? = some 47 := by
    obtain ⟨x, hx⟩ := Option.isSome_iff_exists.mp (List.isSome_head?.mpr h.ne_nil)
    unfold join
    split <;> rw [List.head?_append, h.head] <;> rfl
  unfold IsPath
  rw [getLast?_join hd]
  exact ⟨fun h => (h.resolve_left hlong).2, fun h => Or.inr ⟨hhead, h⟩⟩

/-- One call keeps the current directory in order exactly if it is plain. -/
theorem Call.isPath_next {c : Call} {s : List UInt8} (h : IsPath s) : IsPath (c.next s) ↔ c.Plain s := by
  unfold Call.next Call.Plain
  by_cases hstay : c.argc < 2 ∨ c.word = [46]
  · rw [if_pos hstay]
    refine iff_of_true h ?_
    rcases hstay with hargc | hword
    · exact Or.inl hargc
    · exact Or.inr (Or.inl (by rw [hword]; decide))
  · rw [if_neg hstay]
    by_cases hup : c.word = [46, 46]
    · rw [if_pos hup]
      refine iff_of_true ?_ (Or.inr (Or.inl (by rw [hup]; decide)))
      rw [if_neg (fun hend => h.elim hend.1 (fun h' => h'.2 hend.2))]
      exact h
    · rw [if_neg hup]
      have hargc : ¬ c.argc < 2 := fun h => hstay (Or.inl h)
      by_cases hc : c.chdir (join s c.word) = 0
      · rw [if_pos hc, isPath_join h c.nonempty]
        exact ⟨fun h => Or.inr (Or.inl h), fun h => (h.resolve_left hargc).resolve_right (not_not.mpr hc)⟩
      · rw [if_neg hc]
        exact iff_of_true h (Or.inr (Or.inr hc))

/-- There is a string in `current_dir` after every run. -/
theorem Run.hasString {ok : Call → List UInt8 → Prop} {dir : Buffer} (h : Run ok dir) :
    ∃ s, HasString dir s ∧ s ≠ [] := by
  induction h with
  | start hs => exact ⟨[47], hs, by decide⟩
  | step hrun hs hok hret ih =>
      obtain ⟨s, hs', hne⟩ := ih
      exact ⟨_, hret.next hs' hne, Call.next_ne_nil hne⟩

/-- It is in order after every run of plain calls. -/
theorem Run.isPath {dir : Buffer} (h : Run Call.Plain dir) : ∃ s, HasString dir s ∧ IsPath s := by
  induction h with
  | start hs => exact ⟨[47], hs, Or.inl rfl⟩
  | step hrun hs hok hret ih =>
      obtain ⟨s, hs', hpath⟩ := ih
      obtain rfl := hs.unique hs'
      exact ⟨_, hret.next hs hpath.ne_nil, (Call.isPath_next hpath).mpr hok⟩

/-- What "cd d" and then "cd .." make of a directory. -/
theorem next_up {c up : Call} {s : List UInt8} (hargc : ¬ c.argc < 2) (hslash : 47 ∉ c.word)
    (hdot : c.word ≠ [46]) (hdots : c.word ≠ [46, 46]) (hc : c.chdir (join s c.word) = 0)
    (hup : up.word = [46, 46]) : up.next (c.next s) = join s c.word := by
  have hlast : (join s c.word).getLast? ≠ some 47 := by
    rw [getLast?_join c.nonempty]
    exact fun h => hslash (List.mem_of_getLast? h)
  have hnext : c.next s = join s c.word := by
    rw [Call.next, if_neg (by tauto), if_neg hdots, if_pos hc]
  rw [hnext, Call.next, if_pos hup, if_neg (not_and_of_not_right _ hlast), ite_self]

/-- **"cd .." undoes no "cd d", and '/' at the end of an argument stays.** From no directory that calls
reach do "cd d" and "cd .." come back to it; and after any calls that are plain the current directory is "/",
or starts with '/' and does not end with it. -/
theorem cd_up_keeps_path {dir : Buffer} {s : List UInt8} (c up : Call) :
    (Run (fun _ _ => True) dir → HasString dir s →
      ¬ c.argc < 2 → 47 ∉ c.word → c.word ≠ [46] → c.word ≠ [46, 46] → c.chdir (join s c.word) = 0 →
      up.word = [46, 46] →
      ¬ ∃ dir1 dir2 r1 r2, c.Returns dir r1 dir1 ∧ up.Returns dir1 r2 dir2 ∧ HasString dir2 s) ∧
    (Run Call.Plain dir → ∃ s, HasString dir s ∧ IsPath s) := by
  refine ⟨fun hrun hs hargc hslash hdot hdots hc hup => ?_, Run.isPath⟩
  rintro ⟨dir1, dir2, r1, r2, hcd, hcdup, hback⟩
  obtain ⟨s', hs', hne⟩ := hrun.hasString
  obtain rfl := hs'.unique hs
  have hstring := hcdup.next (hcd.next hs hne) (Call.next_ne_nil hne)
  rw [next_up hargc hslash hdot hdots hc hup] at hstring
  have hlen := @length_join s' c.word c.nonempty
  rw [← hback.unique hstring] at hlen
  exact absurd hlen (lt_irrefl _)

/-- A call with one argument, while every path is a directory. -/
def cdTo (word : List UInt8) (h0 : 0 ∉ word) (hne : word ≠ []) : Call where
  argc := 2
  arg := literal word
  word := word
  holds := hasString_literal h0
  nonempty := hne
  raw := fun _ => 0
  chdir := fun _ => 0

/-- From "/", with the directory "a". -/
theorem cd_up_keeps_path_root :
    ¬ ∃ dir1 dir2 r1 r2, (cdTo [97] (by decide) (by decide)).Returns (literal [47]) r1 dir1 ∧
      (cdTo [46, 46] (by decide) (by decide)).Returns dir1 r2 dir2 ∧ HasString dir2 [47] :=
  (cd_up_keeps_path _ _).1 (Run.start (hasString_literal (by decide))) (hasString_literal (by decide))
    (by decide) (by decide) (by decide) (by decide) rfl rfl

/-- "cd a" and "cd .." from "/" lead to "/a", where a '/' follows in memory. -/
theorem cd_a_cd_up : ∃ dir1 dir2,
    (cdTo [97] (by decide) (by decide)).Returns (literal [47, 0, 0, 47]) 1 dir1 ∧
      (cdTo [46, 46] (by decide) (by decide)).Returns dir1 1 dir2 ∧
      HasString dir2 [47, 97] ∧ ¬ HasString dir2 [47] := by
  have hroot : HasString (literal [47, 0, 0, 47]) [47] := ⟨by decide, by decide, by decide⟩
  obtain ⟨path, hpath, hcall⟩ := cdCommand_join (fun _ => 0) (fun _ => 0) hroot (by decide)
    (hasString_literal (show (0 : UInt8) ∉ [97] by decide)) (show ¬ 2 < 2 by decide) (by decide) (by decide)
  have hdir : HasString (overlay (literal [47, 0, 0, 47]) 0 3 path) [47, 97] := hasString_copy hpath
  have hbehind : overlay (literal [47, 0, 0, 47]) 0 3 path 3 = 47 := overlay_of_ge le_rfl
  have hseek : seek (· != 47) (overlay (literal [47, 0, 0, 47]) 0 3 path) (INT_END - 1) 1 = some 3 := by
    refine seek_eq (by rw [hbehind]; rfl) (fun i h1 h2 => ?_) (by decide) (by unfold INT_END; norm_num)
    obtain rfl | rfl : i = 1 ∨ i = 2 := by omega
    · rw [hdir.bytes 1 (by decide)]
      rfl
    · rw [show overlay (literal [47, 0, 0, 47]) 0 3 path 2 = 0 from hdir.zero]
      rfl
  have hcut := hdir.cut 3
  refine ⟨_, _, ⟨4, fun fuel hf => hcall fuel hf⟩, ⟨4, fun fuel hf => ?_⟩, hcut, fun h => ?_⟩
  · have hup := @cdCommand_up (overlay (literal [47, 0, 0, 47]) 0 3 path) (literal [46, 46]) (fun _ => 0)
      [47, 97] fuel 2 (fun _ => 0) hdir (by decide) (hasString_literal (by decide))
      (show 2 < fuel by omega) (by omega) (by decide)
    rw [if_neg (by decide)] at hup
    exact hup.trans (congrArg _ hseek)
  · exact absurd (h.unique hcut) (by decide)

end ChangeDir

end Talios
