import Talios.User.Strings

set_option autoImplicit false

/-! # Command lines

`parse_command` and `find_cmd` of the shell, on the buffer of 256 bytes that `read_line` has filled. A
pointer into the buffer is its distance from the start. Two scans have to agree: the first counts the ends
of words, looking one character ahead, the second goes from the start of one word to that of the next and
overwrites what follows a word.

A word is a maximal run of other characters than blanks (`IsRun`). `runs_from` has both scans go through the
same runs from any start of one on; `parse_command_splits` is the whole call.
-/

namespace Talios

open Bytes Strings

namespace Command

/-! ## `init.c` -/

def BUF_SIZE : Nat := 256

/-- `while(buf[j] == ' ') j++`. -/
def skipSpaces (buf : Buffer) (fuel j : Nat) : Option Nat := seek (· == 32) buf fuel j

/-- `while(buf[j] != ' ' && buf[j] != '\0') j++`. -/
def skipWord (buf : Buffer) (fuel j : Nat) : Option Nat := seek (fun c => c != 32 && c != 0) buf fuel j

/-- The loop that counts, at `i`, with `256 - i` rounds left. -/
def countLoop (buf : Buffer) : Nat → Nat → Nat → Nat
  | 0, _, argc => argc
  | n + 1, i, argc =>
      if buf i = 0 then argc
      else
        countLoop buf n (i + 1)
          (if buf i ≠ 32 ∧ (buf (i + 1) = 32 ∨ buf (i + 1) = 0) then argc + 1 else argc)

/-- The loop that splits, with `argc - i` rounds left: the buffer, and what is written to `argv`. -/
def splitLoop (fuel : Nat) : Nat → Buffer → Nat → Option (Buffer × List Nat)
  | 0, buf, _ => some (buf, [])
  | n + 1, buf, j =>
      if j < BUF_SIZE then do
        let e ← skipWord buf fuel j
        let buf := Function.update buf e 0
        let k ← skipSpaces buf fuel (e + 1)
        let r ← splitLoop fuel n buf k
        pure (r.1, j :: r.2)
      else some (buf, [])

/-- The names in `shell_internal_cmd`: cd, ls, pwd, cat, touch, rm, mkdir, rmdir, exec and reboot. -/
def shellInternalCmd : List (List UInt8) := [
    [0x63, 0x64], [0x6c, 0x73], [0x70, 0x77, 0x64], [0x63, 0x61, 0x74],
    [0x74, 0x6f, 0x75, 0x63, 0x68], [0x72, 0x6d], [0x6d, 0x6b, 0x64, 0x69, 0x72],
    [0x72, 0x6d, 0x64, 0x69, 0x72], [0x65, 0x78, 0x65, 0x63], [0x72, 0x65, 0x62, 0x6f, 0x6f, 0x74]
  ]

/-- The loop of `find_cmd`, at the name with index `i`. -/
def findCmdLoop (fuel : Nat) (cmd : Buffer) : List (List UInt8) → Nat → Option Int
  | [], _ => some (-1)
  | name :: names, i => do
      let v ← strcmp fuel cmd (literal name)
      if v = 0 then pure i else findCmdLoop fuel cmd names (i + 1)

/-- `find_cmd`. -/
def findCmd (fuel : Nat) (cmd : Buffer) : Option Int := findCmdLoop fuel cmd shellInternalCmd 0

/-- What a call leaves behind: its value, `*argc`, `*argv` and the buffer. -/
structure Parsed where
  ret : Int
  argc : Nat
  argv : List Nat
  buf : Buffer

/-- `parse_command`, with `*argc` at the start. -/
def parseCommand (fuel : Nat) (buf : Buffer) (argc : Nat) : Option Parsed := do
  let j ← skipSpaces buf fuel 0
  let argc := countLoop buf (BUF_SIZE - j) j argc
  if argc = 0 then pure ⟨-1, argc, [], buf⟩
  else do
    let r ← splitLoop fuel argc buf j
    let ret ← findCmd fuel (fun i => r.1 (r.2.headD 0 + i))
    pure ⟨ret, argc, r.2, r.1⟩

/-! ## Words -/

/-- A line of `n` characters in a buffer that is zero behind them. -/
structure IsLine (buf : Buffer) (n : Nat) : Prop where
  fits : n ≤ 254
  chars : ∀ i < n, buf i ≠ 0
  zero : ∀ i, n ≤ i → i < BUF_SIZE → buf i = 0

/-- The characters from `s` up to `e` are a maximal run without blanks. -/
structure IsRun (buf : Buffer) (n s e : Nat) : Prop where
  pos : s < e
  le : e ≤ n
  chars : ∀ i, s ≤ i → i < e → buf i ≠ 32
  left : s = 0 ∨ buf (s - 1) = 32
  right : e = n ∨ buf e = 32

/-- The characters of a run. -/
def word (buf : Buffer) (s e : Nat) : List UInt8 := (List.range (e - s)).map (fun i => buf (s + i))

/-- The number of a command, or -1. -/
def commandNumber (name : List UInt8) : Int :=
  match shellInternalCmd.findIdx? (fun cmd => name = cmd) with
  | some i => i
  | none => -1

/-! ## The loops -/

section

variable {buf : Buffer}

/-- A word is counted once, at its last character. -/
theorem countLoop_word (m argc : Nat) : ∀ (d j : Nat),
    (∀ i, j ≤ i → i ≤ j + d → buf i ≠ 32 ∧ buf i ≠ 0) →
    (buf (j + d + 1) = 32 ∨ buf (j + d + 1) = 0) →
    countLoop buf (m + (d + 1)) j argc = countLoop buf m (j + d + 1) (argc + 1)
  | 0, j, hchars, hend => by
      have hj := hchars j le_rfl le_rfl
      rw [countLoop, if_neg hj.2, if_pos ⟨hj.1, hend⟩]
  | d + 1, j, hchars, hend => by
      have hj := hchars j le_rfl (by omega)
      have hnext := hchars (j + 1) (by omega) (by omega)
      have hsum : j + 1 + d = j + (d + 1) := by omega
      have hrest := countLoop_word m argc d (j + 1) (fun i h1 h2 => hchars i (by omega) (by omega))
        (hsum ▸ hend)
      have hinside : ¬ (buf j ≠ 32 ∧ (buf (j + 1) = 32 ∨ buf (j + 1) = 0)) :=
        fun h => h.2.elim hnext.1 hnext.2
      rw [show m + (d + 1 + 1) = m + (d + 1) + 1 by omega, countLoop, if_neg hj.2, if_neg hinside, hrest,
        hsum]

/-- Blanks are not counted. -/
theorem countLoop_spaces (m argc : Nat) : ∀ (d j : Nat), (∀ i, j ≤ i → i < j + d → buf i = 32) →
    countLoop buf (m + d) j argc = countLoop buf m (j + d) argc
  | 0, _, _ => rfl
  | d + 1, j, hblank => by
      have hj := hblank j le_rfl (by omega)
      have hrest := countLoop_spaces m argc d (j + 1) (fun i h1 h2 => hblank i (by omega) (by omega))
      have hsum : j + 1 + d = j + (d + 1) := by omega
      rw [show m + (d + 1) = m + d + 1 by omega, countLoop, if_neg (by rw [hj]; decide),
        if_neg (by simp [hj]), hrest, hsum]

end

/-! ## Runs -/

section

variable {buf : Buffer} {n s e : Nat}

/-- A run has one end. -/
theorem IsRun.end_unique {e' : Nat} (h : IsRun buf n s e) (h' : IsRun buf n s e') : e = e' := by
  have hle : ∀ {e e'}, IsRun buf n s e → IsRun buf n s e' → e ≤ e' := by
    intro e e' h h'
    by_contra hlt
    have h1 := h'.pos
    have h2 := h.le
    rcases h'.right with hr | hr
    · omega
    · exact h.chars e' (by omega) (by omega) hr
  exact le_antisymm (hle h h') (hle h' h)

/-- Where the run from `j` ends. -/
theorem exists_end {j : Nat} (hj : j < n) (hchar : buf j ≠ 32) :
    ∃ e, j < e ∧ e ≤ n ∧ (∀ i, j ≤ i → i < e → buf i ≠ 32) ∧ (e = n ∨ buf e = 32) := by
  have hex : ∃ e, j ≤ e ∧ (e = n ∨ buf e = 32) := ⟨n, hj.le, Or.inl rfl⟩
  have hmin : ∀ i, j ≤ i → i < Nat.find hex → i ≠ n ∧ buf i ≠ 32 := by
    intro i h1 h2
    have hno := Nat.find_min hex h2
    exact ⟨fun he => hno ⟨h1, Or.inl he⟩, fun he => hno ⟨h1, Or.inr he⟩⟩
  obtain ⟨hle, hend⟩ := Nat.find_spec hex
  have hn : Nat.find hex ≤ n := Nat.find_min' hex ⟨hj.le, Or.inl rfl⟩
  refine ⟨Nat.find hex, lt_of_le_of_ne hle (fun he => ?_), hn, fun i h1 h2 => (hmin i h1 h2).2, hend⟩
  rw [← he] at hend
  exact hend.elim (fun h => absurd h (by omega)) hchar

/-- Where the blanks from `e` on end. -/
theorem exists_next (hl : IsLine buf n) (he : e ≤ n) :
    ∃ k, e ≤ k ∧ k ≤ n ∧ buf k ≠ 32 ∧ ∀ i, e ≤ i → i < k → buf i = 32 := by
  have hn : buf n ≠ 32 := by
    have hfits := hl.fits
    rw [hl.zero n le_rfl (by unfold BUF_SIZE; omega)]
    decide
  have hex : ∃ k, e ≤ k ∧ buf k ≠ 32 := ⟨n, he, hn⟩
  obtain ⟨hle, hchar⟩ := Nat.find_spec hex
  refine ⟨Nat.find hex, hle, Nat.find_min' hex ⟨he, hn⟩, hchar, fun i h1 h2 => ?_⟩
  by_contra hi
  exact Nat.find_min hex h2 ⟨h1, hi⟩

/-- A run that starts at `j` or later is the one at `j`, or starts behind the blanks that follow it. -/
theorem isRun_from {j k : Nat} (h : IsRun buf n j e) (hek : e ≤ k)
    (hk : ∀ i, e ≤ i → i < k → buf i = 32) {s t : Nat} :
    IsRun buf n s t ∧ j ≤ s ↔ (s = j ∧ t = e) ∨ (IsRun buf n s t ∧ k ≤ s) := by
  have hpos := h.pos
  constructor
  · rintro ⟨hrun, hle⟩
    by_cases hs : s = j
    · subst hs
      exact Or.inl ⟨rfl, hrun.end_unique h⟩
    · refine Or.inr ⟨hrun, ?_⟩
      have hfirst := hrun.chars s le_rfl hrun.pos
      by_contra hlt
      by_cases hse : s < e
      · rcases hrun.left with h0 | h0
        · omega
        · exact h.chars (s - 1) (by omega) (by omega) h0
      · exact hfirst (hk s (by omega) (by omega))
  · rintro (⟨rfl, rfl⟩ | ⟨hrun, hle⟩)
    · exact ⟨h, le_rfl⟩
    · exact ⟨hrun, by omega⟩

/-- What both scans do from `j` on: they come to the runs of the line that start there or later. The second
may have changed the buffer in front of `j`. -/
structure Scans (buf : Buffer) (n j : Nat) (runs : List (Nat × Nat)) : Prop where
  mem : ∀ s e, (s, e) ∈ runs ↔ IsRun buf n s e ∧ j ≤ s
  sorted : runs.Pairwise (fun p q => p.2 < q.1)
  count : ∀ argc, countLoop buf (BUF_SIZE - j) j argc = argc + runs.length
  split : ∀ fuel cur, BUF_SIZE ≤ fuel → (∀ i, j ≤ i → i < BUF_SIZE → cur i = buf i) →
    ∃ final, splitLoop fuel runs.length cur j = some (final, runs.map Prod.fst) ∧
      (∀ i < j, final i = cur i) ∧
      ∀ p ∈ runs, (∀ i, p.1 ≤ i → i < p.2 → final i = buf i) ∧ final p.2 = 0

theorem scans_end (hl : IsLine buf n) : Scans buf n n [] := by
  have hfits := hl.fits
  have hrounds : BUF_SIZE - n = BUF_SIZE - n - 1 + 1 := by
    unfold BUF_SIZE
    omega
  refine ⟨fun s e => ?_, List.Pairwise.nil, fun argc => ?_, fun fuel cur _ _ => ?_⟩
  · refine iff_of_false List.not_mem_nil ?_
    rintro ⟨hrun, hle⟩
    have h1 := hrun.pos
    have h2 := hrun.le
    omega
  · rw [hrounds, countLoop, if_pos (hl.zero n le_rfl (by unfold BUF_SIZE; omega))]
    rfl
  · exact ⟨cur, rfl, fun _ _ => rfl, fun p hp => absurd hp List.not_mem_nil⟩

/-- **From one run to the next.** -/
theorem Scans.cons {j k : Nat} {runs : List (Nat × Nat)} (hl : IsLine buf n) (h : IsRun buf n j e)
    (hek : e ≤ k) (hkn : k ≤ n) (hkchar : buf k ≠ 32) (hk : ∀ i, e ≤ i → i < k → buf i = 32)
    (hrest : Scans buf n k runs) : Scans buf n j ((j, e) :: runs) := by
  have hpos := h.pos
  have hle := h.le
  have hfits := hl.fits
  have hsize : BUF_SIZE = 256 := rfl
  have hchars : ∀ i, j ≤ i → i < e → buf i ≠ 32 ∧ buf i ≠ 0 := fun i h1 h2 =>
    ⟨h.chars i h1 h2, hl.chars i (by omega)⟩
  have hend : buf e = 32 ∨ buf e = 0 := by
    rcases h.right with he | he
    · exact Or.inr (hl.zero e he.ge (by omega))
    · exact Or.inl he
  -- there are blanks behind the run, unless it is the last
  have hlast : e = k → k = n := by
    intro he
    rcases h.right with hr | hr
    · omega
    · rw [he] at hr
      exact absurd hr hkchar
  refine ⟨fun s t => ?_, ?_, fun argc => ?_, fun fuel cur hf hcur => ?_⟩
  · rw [List.mem_cons, Prod.mk.injEq, hrest.mem]
    exact (isRun_from h hek hk).symm
  · refine List.pairwise_cons.mpr ⟨fun q hq => ?_, hrest.sorted⟩
    obtain ⟨hrun, hkq⟩ := (hrest.mem q.1 q.2).mp hq
    have h1 := hrun.pos
    have h2 := hrun.le
    show e < q.1
    by_contra hge
    have := hlast (by omega)
    omega
  · have hword := @countLoop_word buf (BUF_SIZE - e) argc (e - j - 1) j
      (fun i h1 h2 => hchars i h1 (by omega)) (by rwa [show j + (e - j - 1) + 1 = e by omega])
    have hblank := @countLoop_spaces buf (BUF_SIZE - k) (argc + 1) (k - e) e
      (fun i h1 h2 => hk i h1 (by omega))
    rw [show BUF_SIZE - e + (e - j - 1 + 1) = BUF_SIZE - j by omega,
      show j + (e - j - 1) + 1 = e by omega] at hword
    rw [show BUF_SIZE - k + (k - e) = BUF_SIZE - e by omega, show e + (k - e) = k by omega] at hblank
    rw [hword, hblank, hrest.count, List.length_cons]
    omega
  · have hskip : skipWord cur fuel j = some e := by
      refine seek_eq ?_ (fun i h1 h2 => ?_) hpos.le (by omega)
      · rw [hcur e hpos.le (by omega)]
        rcases hend with he | he <;> simp [he]
      · rw [hcur i h1 (by omega)]
        simpa using hchars i h1 h2
    have hcut : ∀ i, i ≠ e → Function.update cur e 0 i = cur i := fun i hi => Function.update_of_ne hi ..
    by_cases hke : e = k
    · -- the last word: behind the zero that ends the line there is another one
      have hkn := hlast hke
      have hnext : skipSpaces (Function.update cur e 0) fuel (e + 1) = some (e + 1) := by
        refine seek_eq ?_ (fun i h1 h2 => absurd h1 (by omega)) le_rfl (by omega)
        rw [hcut _ (by omega), hcur _ (by omega) (by omega), hl.zero _ (by omega) (by omega)]
        rfl
      have hnil : runs = [] := by
        refine List.eq_nil_iff_forall_not_mem.mpr (fun q hq => ?_)
        obtain ⟨hrun, hkq⟩ := (hrest.mem q.1 q.2).mp hq
        have h1 := hrun.pos
        have h2 := hrun.le
        omega
      refine ⟨Function.update cur e 0, ?_, fun i hi => hcut i (by omega), ?_⟩
      · rw [hnil, List.length_cons, splitLoop, if_pos (by omega), hskip]
        simp only [Option.bind_eq_bind, Option.bind_some, hnext]
        rfl
      · rw [hnil]
        rintro p hp
        obtain rfl := List.mem_singleton.mp hp
        refine ⟨fun i h1 h2 => ?_, Function.update_self ..⟩
        exact (hcut i (by omega)).trans (hcur i h1 (by omega))
    · have hnext : skipSpaces (Function.update cur e 0) fuel (e + 1) = some k := by
        refine seek_eq ?_ (fun i h1 h2 => ?_) (by omega) (by omega)
        · rw [hcut _ (by omega), hcur _ (by omega) (by omega)]
          simpa using hkchar
        · rw [hcut _ (by omega), hcur _ (by omega) (by omega), hk i (by omega) h2]
          rfl
      obtain ⟨final, hloop, hframe, hruns⟩ := hrest.split fuel (Function.update cur e 0) hf
        (fun i h1 h2 => (hcut i (by omega)).trans (hcur i (by omega) h2))
      refine ⟨final, ?_, fun i hi => ?_, fun p hp => ?_⟩
      · rw [List.length_cons, splitLoop, if_pos (by omega), hskip]
        simp only [Option.bind_eq_bind, Option.bind_some, hnext, hloop]
        rfl
      · rw [hframe i (by omega), hcut i (by omega)]
      · rcases List.mem_cons.mp hp with rfl | hp
        · refine ⟨fun i h1 h2 => ?_, ?_⟩
          · rw [hframe i (by omega), hcut i (by omega)]
            exact hcur i h1 (by omega)
          · rw [hframe e (by omega)]
            exact Function.update_self ..
        · exact hruns p hp

/-- **The runs from `j` on**, where one starts, or the line ends. -/
theorem runs_from (hl : IsLine buf n) : ∀ (d j : Nat), n - j ≤ d → j ≤ n →
    (j = n ∨ buf j ≠ 32 ∧ (j = 0 ∨ buf (j - 1) = 32)) → ∃ runs, Scans buf n j runs := by
  intro d
  induction d with
  | zero =>
      intro j hd hj _
      obtain rfl : j = n := by omega
      exact ⟨[], scans_end hl⟩
  | succ d ih =>
      intro j hd hj hstart
      by_cases hjn : j = n
      · rw [hjn]
        exact ⟨[], scans_end hl⟩
      · obtain ⟨hchar, hleft⟩ := hstart.resolve_left hjn
        obtain ⟨e, hje, hen, hchars, hright⟩ := exists_end (show j < n by omega) hchar
        obtain ⟨k, hek, hkn, hkchar, hk⟩ := exists_next hl hen
        have hrun : IsRun buf n j e := ⟨hje, hen, hchars, hleft, hright⟩
        have hnext : k = n ∨ buf k ≠ 32 ∧ (k = 0 ∨ buf (k - 1) = 32) := by
          by_cases hke : k = e
          · -- without blanks in between the run is the last
            rcases hright with h | h
            · exact Or.inl (hke.trans h)
            · exact absurd (hke ▸ h) hkchar
          · exact Or.inr ⟨hkchar, Or.inr (hk (k - 1) (by omega) (by omega))⟩
        obtain ⟨runs, hruns⟩ := ih k (by omega) hkn hnext
        exact ⟨(j, e) :: runs, hruns.cons hl hrun hek hkn hkchar hk⟩

end

/-! ## Commands -/

/-- `find_cmd` finds the first name that is the string at `cmd`. -/
theorem findCmdLoop_eq {cmd : Buffer} {w : List UInt8} {fuel : Nat} (hw : HasString cmd w)
    (hf : w.length < fuel) : ∀ (names : List (List UInt8)) (i : Nat), (∀ name ∈ names, 0 ∉ name) →
      findCmdLoop fuel cmd names i = some (match names.findIdx? (fun name => w = name) with
        | some k => (k + i : Nat)
        | none => -1)
  | [], _, _ => rfl
  | name :: names, i, hnames => by
      obtain ⟨v, hv, hiff⟩ := strcmp_eq hw (hasString_literal (hnames name List.mem_cons_self)) hf
      have hrest := findCmdLoop_eq hw hf names (i + 1) (fun m hm => hnames m (List.mem_cons_of_mem _ hm))
      rw [findCmdLoop, hv, Option.bind_eq_bind, Option.bind_some, List.findIdx?_cons]
      by_cases hname : w = name
      · rw [if_pos (hiff.mpr hname), if_pos (by simpa using hname)]
        show some (i : Int) = some ((0 + i : Nat) : Int)
        rw [Nat.zero_add]
      · rw [if_neg (fun h => hname (hiff.mp h)), if_neg (by simpa using hname), hrest]
        cases names.findIdx? (fun name => w = name) with
        | none => rfl
        | some k =>
            show some (((k + (i + 1) : Nat) : Int)) = some (((k + 1 + i : Nat) : Int))
            rw [Nat.add_right_comm, Nat.add_assoc]

/-- `find_cmd` finds the number of the command whose name stands at `s`. -/
theorem findCmd_eq {buf final : Buffer} {n s e fuel : Nat} (hl : IsLine buf n) (h : IsRun buf n s e)
    (hsame : ∀ i, s ≤ i → i < e → final i = buf i) (hzero : final e = 0) (hf : n < fuel) :
    findCmd fuel (fun i => final (s + i)) = some (commandNumber (word buf s e)) := by
  have hpos := h.pos
  have hle := h.le
  have hlen : (word buf s e).length = e - s := by
    unfold word
    rw [List.length_map, List.length_range]
  have hword : HasString (fun i => final (s + i)) (word buf s e) := by
    refine ⟨fun i hi => ?_, ?_, fun hm => ?_⟩
    · rw [hlen] at hi
      rw [hsame _ (by omega) (by omega), List.getD_eq_getElem _ _ (by omega)]
      simp [word]
    · rw [hlen, Nat.add_sub_cancel' hpos.le, hzero]
    · obtain ⟨i, hi, hc⟩ := List.mem_map.mp hm
      exact hl.chars (s + i) (by have := List.mem_range.mp hi; omega) hc
  exact findCmdLoop_eq hword (by omega) shellInternalCmd 0 (by decide)

/-- **`parse_command` splits a line into its words**: it comes to an end, `*argc` is the number of runs,
`*argv` points to them in order, a zero stands behind each, and the value is the number of the command
that the first word names, or -1. -/
theorem parse_command_splits {buf : Buffer} {n : Nat} (hl : IsLine buf n) :
    ∃ runs : List (Nat × Nat),
      (∀ s e, (s, e) ∈ runs ↔ IsRun buf n s e) ∧ runs.Pairwise (fun p q => p.2 < q.1) ∧
      ∀ fuel, BUF_SIZE ≤ fuel → ∃ r, parseCommand fuel buf 0 = some r ∧
        r.argc = runs.length ∧ r.argv = runs.map Prod.fst ∧
        (∀ p ∈ runs, (∀ i, p.1 ≤ i → i < p.2 → r.buf i = buf i) ∧ r.buf p.2 = 0) ∧
        r.ret = match runs with
          | [] => -1
          | p :: _ => commandNumber (word buf p.1 p.2) := by
  have hfits := hl.fits
  have hsize : BUF_SIZE = 256 := rfl
  obtain ⟨j, -, hjn, hchar, hblank⟩ := exists_next hl (Nat.zero_le n)
  have hstart : j = n ∨ buf j ≠ 32 ∧ (j = 0 ∨ buf (j - 1) = 32) := by
    refine Or.inr ⟨hchar, ?_⟩
    by_cases hj : j = 0
    · exact Or.inl hj
    · exact Or.inr (hblank (j - 1) (Nat.zero_le _) (by omega))
  obtain ⟨runs, hruns⟩ := runs_from hl (n - j) j le_rfl hjn hstart
  refine ⟨runs, fun s e => ?_, hruns.sorted, fun fuel hf => ?_⟩
  · rw [hruns.mem]
    refine and_iff_left_of_imp fun hrun => ?_
    by_contra hlt
    exact hrun.chars s le_rfl hrun.pos (hblank s (Nat.zero_le _) (by omega))
  · have hskip : skipSpaces buf fuel 0 = some j := by
      refine seek_eq (by simpa using hchar) (fun i h1 h2 => ?_) (Nat.zero_le j) (by omega)
      rw [hblank i h1 h2]
      rfl
    have hcount : countLoop buf (BUF_SIZE - j) j 0 = runs.length := by
      rw [hruns.count, Nat.zero_add]
    obtain ⟨final, hsplit, -, hwords⟩ := hruns.split fuel buf hf (fun _ _ _ => rfl)
    unfold parseCommand
    simp only [Option.bind_eq_bind, hskip, Option.bind_some, hcount]
    cases runs with
    | nil => exact ⟨_, rfl, rfl, rfl, fun p hp => absurd hp List.not_mem_nil, rfl⟩
    | cons p rest =>
        obtain ⟨hsame, hzero⟩ := hwords p List.mem_cons_self
        have hfind := findCmd_eq hl ((hruns.mem p.1 p.2).mp List.mem_cons_self).1 hsame hzero
          (show n < fuel by omega)
        rw [if_neg (by simp), hsplit, Option.bind_some]
        simp only [List.map_cons, List.headD_cons, hfind, Option.bind_some]
        exact ⟨_, rfl, rfl, rfl, hwords, rfl⟩

/-- A line of two words, with blanks around them: "  ls  a ". -/
def someLine : Buffer := fun i => ([32, 32, 0x6c, 0x73, 32, 32, 0x61, 32] : List UInt8).getD i 0

theorem parse_command_splits_example : ∃ r,
    parseCommand BUF_SIZE someLine 0 = some r ∧ r.argc = 2 ∧ r.argv = [2, 6] ∧
      (r.buf 2 = 0x6c ∧ r.buf 3 = 0x73 ∧ r.buf 4 = 0) ∧ (r.buf 6 = 0x61 ∧ r.buf 7 = 0) := by
  have hl : IsLine someLine 8 := by
    refine ⟨by decide, by decide, fun i h1 _ => ?_⟩
    exact List.getD_eq_default _ _ (by simpa using h1)
  obtain ⟨runs, hmem, hsorted, hcall⟩ := parse_command_splits hl
  have hls : (2, 4) ∈ runs := by
    refine (hmem 2 4).mpr ⟨by decide, by decide, fun i h1 h2 => ?_, Or.inr rfl, Or.inr rfl⟩
    interval_cases i <;> decide
  have ha : (6, 7) ∈ runs := by
    refine (hmem 6 7).mpr ⟨by decide, by decide, fun i h1 h2 => ?_, Or.inr rfl, Or.inr rfl⟩
    interval_cases i
    decide
  -- every run starts where one of the two words does
  have hstarts : runs.map Prod.fst = [2, 6] := by
    have hlt : (runs.map Prod.fst).Pairwise (· < ·) := by
      rw [List.pairwise_map]
      refine hsorted.imp_of_mem fun hp _ h => ?_
      exact ((hmem _ _).mp hp).pos.trans h
    refine hlt.eq_of_mem_iff (by decide) fun s => ?_
    rw [List.mem_map]
    constructor
    · rintro ⟨⟨s, e⟩, hrun, rfl⟩
      obtain ⟨hpos, hle, hchars, hleft, -⟩ := (hmem s e).mp hrun
      have hblank := hchars s le_rfl hpos
      dsimp only
      have hs : s < 8 := by omega
      interval_cases s <;> revert hblank hleft <;> decide
    · intro hs
      rw [List.mem_cons, List.mem_singleton] at hs
      rcases hs with rfl | rfl
      · exact ⟨(2, 4), hls, rfl⟩
      · exact ⟨(6, 7), ha, rfl⟩
  obtain ⟨r, hr, hargc, hargv, hwords, -⟩ := hcall BUF_SIZE le_rfl
  obtain ⟨h2, h4⟩ := hwords _ hls
  obtain ⟨h6, h7⟩ := hwords _ ha
  refine ⟨r, hr, ?_, hargv.trans hstarts, ⟨h2 2 (by decide) (by decide), h2 3 (by decide) (by decide), h4⟩,
    h6 6 (by decide) (by decide), h7⟩
  have hlen := congrArg List.length hstarts
  rw [List.length_map] at hlen
  exact hargc.trans hlen

end Command

end Talios
