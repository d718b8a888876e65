import Talios.Mm.Brk

set_option autoImplicit false

/-! # `malloc` of the user library

`malloc` cuts its blocks off the heap one after the other, at `brk_used`, and asks the kernel for
more when the heap that it knows of does not reach. It never looks at what `brk` says: where the
kernel has no page, or the break is out of range, the block is returned all the same. And `stdio.h`
declares `int brk(unsigned long)`, so that only the low 32 bits of the break arrive, with their
sign: a break with bit 31 set is taken for a heap that reaches almost to the end of memory.

`malloc_sound` says which runs are right. The pages that the kernel finds or does not find are an
input of every call, as in `Talios.Mm.Brk`; the class of pages does not grow for the tables here.
-/

namespace Talios

open Word

/-! ## The calls -/

/-- `LABEL_SYSCALL`, of what the kernel returns; `errno` is not read here. -/
def labelSyscall (rax : Nat) : Nat := if rax < 2 ^ 64 - 0x1000 then rax else 2 ^ 64 - 1

/-- `brk`, with the declaration of `stdio.h`: an `int`. -/
def userBrk (heap : Brk) (outcome : Nat → PageOutcome) (brk : Nat) : Brk × Nat :=
  let r := sysBrk heap none outcome brk
  (r.1, signExtend32 (labelSyscall r.2))

def SIZE_ALIGN : Nat := 64

/-- The variables of `malloc.c`, and the heap as the kernel has it. -/
structure Arena where
  brkStart : Nat
  brkEnd : Nat
  brkUsed : Nat
  heap : Brk

/-- The first `if` of `malloc`. -/
def Arena.begin (a : Arena) (outcome : Nat → PageOutcome) : Arena :=
  if a.brkStart = 0 then
    let r := userBrk a.heap outcome a.brkStart
    ⟨r.2, r.2, r.2, r.1⟩
  else a

/-- The second `if` of `malloc`. -/
def Arena.extend (a : Arena) (outcome : Nat → PageOutcome) (size : Nat) : Arena :=
  if a.brkEnd ≤ add64 (add64 a.brkUsed size) SIZE_ALIGN then
    let r := userBrk a.heap outcome
      (add64 a.brkUsed (alignUp64 PAGE_4K_SIZE (add64 size SIZE_ALIGN)))
    { a with brkEnd := r.2, heap := r.1 }
  else a

/-- `malloc`. -/
def malloc (a : Arena) (outcome : Nat → PageOutcome) (size : Nat) : Arena × Nat :=
  let a := (a.begin outcome).extend outcome size
  ({ a with brkUsed := add64 a.brkUsed (add64 size SIZE_ALIGN) }, a.brkUsed)

/-- A call of `malloc`, with what the allocations of the kernel do in it. -/
structure MallocCall where
  size : Nat
  outcome : Nat → PageOutcome
  lt : size < 2 ^ 64

/-- A block that `malloc` has returned. -/
structure HeapBlock where
  start : Nat
  size : Nat

/-- The blocks after a call that returns `addr`: null is no block. -/
def record (addr size : Nat) (blocks : List HeapBlock) : List HeapBlock :=
  if addr = 0 then blocks else ⟨addr, size⟩ :: blocks

/-- What is reached after `do_execve` by calls that all meet `ok`, with the blocks returned so far,
the last one first. -/
inductive MallocReachable (ok : Arena → MallocCall → Prop) : Arena → List HeapBlock → Prop
  | exec {outcome : Nat → PageOutcome} {s : Brk} (h : execveBrk none outcome = some s) :
      MallocReachable ok ⟨0, 0, 0, s⟩ []
  | step {a : Arena} {blocks : List HeapBlock} (c : MallocCall) (h : MallocReachable ok a blocks)
      (hok : ok a c) :
      MallocReachable ok (malloc a c.outcome c.size).1
        (record (malloc a c.outcome c.size).2 c.size blocks)

/-! ## What is wanted -/

/-- The block lies in the heap, and all of it is mapped. -/
structure HeapBlock.In (b : HeapBlock) (s : Brk) : Prop where
  lower : s.startBrk ≤ b.start
  upper : b.start + b.size ≤ s.endBrk
  mapped : ∀ x, b.start ≤ x → x < b.start + b.size →
    (s.pages (x / PAGE_4K_SIZE)).isSome = true

def HeapBlock.Apart (b c : HeapBlock) : Prop :=
  b.start + b.size ≤ c.start ∨ c.start + c.size ≤ b.start

/-- All blocks lie in the heap, and no two of them meet. -/
structure BlocksSound (s : Brk) (blocks : List HeapBlock) : Prop where
  inHeap : ∀ b ∈ blocks, b.In s
  apart : blocks.Pairwise HeapBlock.Apart

/-- Where the next block starts. -/
def Arena.used (a : Arena) : Nat := if a.brkStart = 0 then a.heap.startBrk else a.brkUsed

/-- The end of the heap as `malloc` knows it. -/
def Arena.limit (a : Arena) : Nat := if a.brkStart = 0 then a.heap.startBrk else a.brkEnd

/-- The end of the next block, in whole pages counted from its start. -/
def Arena.want (a : Arena) (size : Nat) : Nat :=
  a.used + (size + SIZE_ALIGN + 4095) / 4096 * 4096

/-- In the state before a call: the block fits in what `malloc` knows of, or the pages up to its end
are in user space and can be had, and the break after them has bit 31 clear. -/
def Arena.Room (a : Arena) (c : MallocCall) : Prop :=
  a.used + c.size + SIZE_ALIGN < a.limit ∨
  (a.want c.size ≤ USER_LIMIT ∧
    (∀ n, a.heap.endBrk ≤ n * PAGE_4K_SIZE → n * PAGE_4K_SIZE < a.want c.size →
      ∃ page, c.outcome (n * PAGE_4K_SIZE) = .ready page) ∧
    (a.want c.size + 4095) / 4096 * 4096 % 2 ^ 32 < 2 ^ 31)

/-! ## The kernel's side -/

theorem doBrk_startBrk (s : Brk) (grown : GrownRange) (outcome : Nat → PageOutcome) (start size : Nat) :
    (doBrk s grown outcome start size).1.startBrk = s.startBrk := by
  rw [doBrk_eq]
  generalize mapUserPages s.pages grown outcome start size = r
  generalize alignUp64 PAGE_4K_SIZE (add64 start size) = stop
  by_cases hf : r.2 ≠ 0
  · rw [if_pos hf]
  · rw [if_neg hf]

/-- The cases of `sys_brk`, whatever `do_brk` returns. -/
theorem brkCases_startBrk {s : Brk} {r : Brk × Nat} (hr : r.1.startBrk = s.startBrk)
    (newBrk : Nat) :
    (if newBrk = 0 then (s, s.startBrk)
      else if newBrk < s.endBrk then (s, 0)
      else ({ r.1 with endBrk := r.2 }, r.2)).1.startBrk = s.startBrk := by
  by_cases h0 : newBrk = 0
  · rw [if_pos h0]
  by_cases hlt : newBrk < s.endBrk
  · rw [if_neg h0, if_pos hlt]
  · rw [if_neg h0, if_neg hlt]
    exact hr

theorem sysBrk_startBrk (s : Brk) (grown : GrownRange) (outcome : Nat → PageOutcome) (brk : Nat) :
    (sysBrk s grown outcome brk).1.startBrk = s.startBrk := by
  unfold sysBrk
  exact brkCases_startBrk (doBrk_startBrk s grown outcome s.endBrk _) (alignUp64 PAGE_4K_SIZE brk)

/-- A call with room: the heap reaches to the break, and the answer is 0 or a break in the heap. -/
theorem sysBrk_room {s : Brk} {c : BrkCall} (hs : s.Ok) (hr : s.Room c) (h0 : 0 < c.brk) :
    ∃ heap ret, sysBrk s none c.outcome c.brk = (heap, ret) ∧ heap.Ok ∧
      heap.startBrk = s.startBrk ∧ s.endBrk ≤ heap.endBrk ∧ c.brk ≤ heap.endBrk ∧
      ret ≤ heap.endBrk ∧ (ret = 0 ∨ ret = (c.brk + 4095) / 4096 * 4096) := by
  have hL : USER_LIMIT = 0x0000800000000000 := rfl
  have hg := hr.1
  have hb := hr.2.1
  have hml := page_mul ((c.brk + 4095) / 4096)
  have hkeep := sysBrk_startBrk s none c.outcome c.brk
  by_cases hlt : (c.brk + 4095) / 4096 * PAGE_4K_SIZE < s.endBrk
  · -- the break is inside the heap: the kernel answers 0 and does nothing
    have he : sysBrk s none c.outcome c.brk = (s, 0) := by
      unfold sysBrk
      dsimp only
      rw [alignUp_page (by omega), if_neg (by omega), if_pos hlt]
    exact ⟨s, 0, he, hs, rfl, le_rfl, by omega, Nat.zero_le _, Or.inl rfl⟩
  · rcases sysBrk_user hs hg hb rfl (by omega) (Nat.le_of_not_lt hlt) with
      ⟨-, hok, h1, h2⟩ | ⟨hno, -⟩
    · rw [hg] at hok h1 h2
      rcases hres : sysBrk s none c.outcome c.brk with ⟨heap, ret⟩
      rw [hres] at hok hkeep h1 h2
      dsimp only at hok hkeep h1 h2
      exact ⟨heap, ret, rfl, hok, hkeep, by omega, by omega, by omega, Or.inr (by omega)⟩
    · exact absurd hr hno

/-- A break with bit 31 clear comes back as something that is not more. -/
theorem signExtend32_le {v : Nat} (h : v % 2 ^ 32 < 2 ^ 31) : signExtend32 v ≤ v := by
  rw [signExtend32, if_pos h]
  exact Nat.mod_le _ _

theorem labelSyscall_of_le {v : Nat} (h : v ≤ USER_LIMIT) : labelSyscall v = v := by
  have hL : USER_LIMIT = 0x0000800000000000 := rfl
  rw [labelSyscall, if_pos (by omega)]

/-- The same for the library's `brk`, if the break has bit 31 clear: no more heap is reported than
there is. -/
theorem userBrk_room {s : Brk} {c : BrkCall} (hs : s.Ok) (hr : s.Room c) (h0 : 0 < c.brk)
    (hbit : (c.brk + 4095) / 4096 * 4096 % 2 ^ 32 < 2 ^ 31) :
    ∃ heap stop, userBrk s c.outcome c.brk = (heap, stop) ∧ heap.Ok ∧
      heap.startBrk = s.startBrk ∧ c.brk ≤ heap.endBrk ∧ stop ≤ heap.endBrk := by
  rcases sysBrk_room hs hr h0 with ⟨heap, ret, he, hok, hkeep, -, hreach, hle, hret⟩
  refine ⟨heap, signExtend32 (labelSyscall ret), ?_, hok, hkeep, hreach, ?_⟩
  · unfold userBrk
    rw [he]
  · rw [labelSyscall_of_le (hle.trans hok.upper)]
    rcases hret with rfl | rfl
    · exact Nat.zero_le _
    · exact (signExtend32_le hbit).trans hle

/-! ## The run -/

/-- The heap, what `malloc` knows of it, and the blocks below `brk_used`. -/
structure Arena.Held (a : Arena) (blocks : List HeapBlock) : Prop where
  ok : a.heap.Ok
  start : a.heap.startBrk = BRK_START_ADDR
  idle : a.brkStart = 0 → blocks = []
  limit_le : a.limit ≤ a.heap.endBrk
  le_used : a.heap.startBrk ≤ a.used
  used_le : a.used ≤ a.heap.endBrk
  below : ∀ b ∈ blocks, a.heap.startBrk ≤ b.start ∧ b.start + b.size ≤ a.used
  apart : blocks.Pairwise HeapBlock.Apart

section

variable {a : Arena} {blocks : List HeapBlock} {c : MallocCall}

/-- After the first `if` the variables hold what they stand for. -/
theorem Arena.begin_eq (outcome : Nat → PageOutcome) (h : a.heap.startBrk = BRK_START_ADDR) :
    ∃ start, start ≠ 0 ∧ a.begin outcome = ⟨start, a.limit, a.used, a.heap⟩ := by
  unfold Arena.begin Arena.limit Arena.used
  by_cases h0 : a.brkStart = 0
  · -- `brk(0)` is a question, and the answer fits in an `int`
    have hask : userBrk a.heap outcome 0 = (a.heap, BRK_START_ADDR) := by
      have he : sysBrk a.heap none outcome 0 = (a.heap, a.heap.startBrk) := by
        unfold sysBrk
        dsimp only
        rw [if_pos (by decide)]
      have hfits : signExtend32 (labelSyscall BRK_START_ADDR) = BRK_START_ADDR := by decide
      unfold userBrk
      dsimp only
      rw [he]
      dsimp only
      rw [h, hfits]
    rw [if_pos h0, if_pos h0, if_pos h0, h0, hask, h]
    exact ⟨BRK_START_ADDR, by decide, rfl⟩
  · rw [if_neg h0, if_neg h0, if_neg h0]
    exact ⟨a.brkStart, h0, rfl⟩

/-- Blocks below the break are in the heap. -/
theorem Arena.Held.sound (h : a.Held blocks) : BlocksSound a.heap blocks := by
  refine ⟨fun b hb => ?_, h.apart⟩
  have hbelow := h.below b hb
  have hend : b.start + b.size ≤ a.heap.endBrk := hbelow.2.trans h.used_le
  refine ⟨hbelow.1, hend, fun x h1 h2 => ?_⟩
  have hx : x < a.heap.endBrk := h2.trans_le hend
  exact (h.ok.mapped x (hbelow.1.trans h1) (hx.trans_le h.ok.upper)).mpr hx

/-- A call with room: the heap reaches to the end of the block, and `malloc` knows of no more than
there is. -/
theorem Arena.Held.extend (h : a.Held blocks) (hr : a.Room c) :
    ∃ start stop heap, start ≠ 0 ∧ heap.Ok ∧ heap.startBrk = a.heap.startBrk ∧
      a.used + c.size + SIZE_ALIGN ≤ heap.endBrk ∧ stop ≤ heap.endBrk ∧
      (a.begin c.outcome).extend c.outcome c.size = ⟨start, stop, a.used, heap⟩ := by
  have hL : USER_LIMIT = 0x0000800000000000 := rfl
  have hA : SIZE_ALIGN = 64 := rfl
  have hP : PAGE_4K_SIZE - 1 = 4095 := rfl
  have hS : a.heap.startBrk = 0xc00000 := h.start
  have hlow := h.le_used
  have hlim := h.limit_le
  have hup := h.ok.upper
  rcases Arena.begin_eq c.outcome h.start with ⟨start, hstart, hbegin⟩
  rw [hbegin]
  unfold Arena.extend
  dsimp only
  by_cases hfit : a.used + c.size + SIZE_ALIGN < a.limit
  · have hstop : add64 (add64 a.used c.size) SIZE_ALIGN = a.used + c.size + SIZE_ALIGN := by
      rw [add64_eq (a := a.used) (by omega), add64_eq (by omega)]
    rw [hstop, if_neg (by omega)]
    exact ⟨start, a.limit, a.heap, hstart, h.ok, rfl, by omega, hlim, rfl⟩
  · rcases hr.resolve_left hfit with ⟨hwant, hready, hbit⟩
    have hw : a.want c.size = a.used + (c.size + SIZE_ALIGN + 4095) / 4096 * 4096 := rfl
    have hstop : add64 (add64 a.used c.size) SIZE_ALIGN = a.used + c.size + SIZE_ALIGN := by
      rw [add64_eq (a := a.used) (by omega), add64_eq (by omega)]
    have hbreak : add64 a.used (alignUp64 PAGE_4K_SIZE (add64 c.size SIZE_ALIGN))
        = a.want c.size := by
      rw [add64_eq (a := c.size) (by omega), alignUp_page (by omega),
        show PAGE_4K_SIZE = 4096 from rfl, add64_eq (by omega), hw]
    rw [hstop, if_pos (by omega), hbreak]
    rcases userBrk_room (c := ⟨a.want c.size, none, c.outcome, by omega⟩) h.ok ⟨rfl, hwant, hready⟩
      (show 0 < a.want c.size by omega) hbit with ⟨heap, stop, he, hok, hkeep, hreach, hknown⟩
    dsimp only at he hreach
    rw [he]
    exact ⟨start, stop, heap, hstart, hok, hkeep, by omega, hknown, rfl⟩

/-- The call returns what was used, and has used the block and `SIZE_ALIGN` bytes more. -/
theorem Arena.Held.malloc_eq (h : a.Held blocks) (hr : a.Room c) :
    ∃ start stop heap, start ≠ 0 ∧ heap.Ok ∧ heap.startBrk = a.heap.startBrk ∧
      a.used + c.size + SIZE_ALIGN ≤ heap.endBrk ∧ stop ≤ heap.endBrk ∧
      Talios.malloc a c.outcome c.size
        = (⟨start, stop, a.used + (c.size + SIZE_ALIGN), heap⟩, a.used) := by
  have hL : USER_LIMIT = 0x0000800000000000 := rfl
  rcases h.extend hr with ⟨start, stop, heap, hstart, hok, hkeep, hreach, hknown, he⟩
  have hup := hok.upper
  have hnext : add64 a.used (add64 c.size SIZE_ALIGN) = a.used + (c.size + SIZE_ALIGN) := by
    rw [add64_eq (a := c.size) (by omega), add64_eq (by omega)]
  refine ⟨start, stop, heap, hstart, hok, hkeep, hreach, hknown, ?_⟩
  unfold Talios.malloc
  rw [he]
  dsimp only
  rw [hnext]

/-- **One call** with room: the block is new, and the heap holds it. -/
theorem Arena.Held.malloc (h : a.Held blocks) (hr : a.Room c) :
    (malloc a c.outcome c.size).1.Held
      (record (malloc a c.outcome c.size).2 c.size blocks) := by
  have hL : USER_LIMIT = 0x0000800000000000 := rfl
  have hA : SIZE_ALIGN = 64 := rfl
  have hS : a.heap.startBrk = 0xc00000 := h.start
  have hlow := h.le_used
  rcases h.malloc_eq hr with ⟨start, stop, heap, hstart, hok, hkeep, hreach, hknown, hnew⟩
  have hup := hok.upper
  have hrec : record a.used c.size blocks = ⟨a.used, c.size⟩ :: blocks := by
    rw [record, if_neg (by omega)]
  have hused : Arena.used ⟨start, stop, a.used + (c.size + SIZE_ALIGN), heap⟩
      = a.used + (c.size + SIZE_ALIGN) := if_neg hstart
  have hlimit : Arena.limit ⟨start, stop, a.used + (c.size + SIZE_ALIGN), heap⟩ = stop :=
    if_neg hstart
  rw [hnew]
  dsimp only
  rw [hrec]
  refine ⟨hok, hkeep.trans h.start, fun h0 => absurd h0 hstart, ?_, ?_, ?_, fun b hb => ?_,
    List.pairwise_cons.mpr ⟨fun b hb => ?_, h.apart⟩⟩
  · rw [hlimit]
    exact hknown
  · rw [hused, hkeep]
    omega
  · rw [hused]
    show _ ≤ heap.endBrk
    omega
  · rw [hused]
    show heap.startBrk ≤ _ ∧ _
    rw [hkeep]
    rcases List.mem_cons.mp hb with rfl | hb
    · exact ⟨hlow, by dsimp only; omega⟩
    · have := h.below b hb
      exact ⟨this.1, by omega⟩
  · exact Or.inr (h.below b hb).2

end

/-- A new process. -/
theorem Arena.Held.exec {outcome : Nat → PageOutcome} {s : Brk}
    (h : execveBrk none outcome = some s) : Arena.Held ⟨0, 0, 0, s⟩ [] := by
  have hok := execveBrk_ok h
  refine ⟨hok, (execveBrk_start h).1, fun _ => rfl, ?_, ?_, ?_, by simp, List.Pairwise.nil⟩
  · exact hok.lower
  · exact le_rfl
  · exact hok.lower

/-- **`malloc`**: in every run whose calls all have room, every block lies in the heap and no two
blocks meet. -/
theorem malloc_sound (a : Arena) (blocks : List HeapBlock)
    (h : MallocReachable Arena.Room a blocks) : BlocksSound a.heap blocks := by
  have hheld : a.Held blocks := by
    induction h with
    | exec h => exact Arena.Held.exec h
    | step c _ hr ih => exact ih.malloc hr
  exact hheld.sound

/-- A process that asks for 100 bytes and then for 5000, with pages for them. -/
theorem malloc_sound_first : ∃ a blocks, MallocReachable Arena.Room a blocks ∧
    blocks = [⟨0xc000a4, 5000⟩, ⟨0xc00000, 100⟩] ∧ BlocksSound a.heap blocks := by
  rcases execveBrk_ready with ⟨s, hs, -⟩
  -- the pages can be had for any block whose end has bit 31 clear
  have hready : ∀ (a : Arena) (c : MallocCall), (∀ v, ∃ page, c.outcome v = .ready page) →
      a.want c.size < 2 ^ 30 → a.Room c := by
    intro a c hall hlt
    have hL : USER_LIMIT = 0x0000800000000000 := rfl
    exact Or.inr ⟨by omega, fun n _ _ => hall _, by omega⟩
  let c : MallocCall := ⟨100, fun v => .ready (v / PAGE_4K_SIZE), by decide⟩
  have hused : Arena.used ⟨0, 0, 0, s⟩ = 0xc00000 := (execveBrk_start hs).1
  have hroom : Arena.Room ⟨0, 0, 0, s⟩ c := by
    refine hready _ c (fun v => ⟨_, rfl⟩) ?_
    rw [Arena.want, hused]
    decide
  rcases (Arena.Held.exec hs).malloc_eq hroom with ⟨start, stop, heap, hstart, -, -, -, -, he⟩
  have hr := MallocReachable.step c (.exec hs) hroom
  rw [he, hused] at hr
  let d : MallocCall := ⟨5000, fun v => .ready (v / PAGE_4K_SIZE), by decide⟩
  have hused' : Arena.used ⟨start, stop, 0xc00000 + (c.size + SIZE_ALIGN), heap⟩ = 0xc000a4 :=
    if_neg hstart
  have hroom' : Arena.Room ⟨start, stop, 0xc00000 + (c.size + SIZE_ALIGN), heap⟩ d := by
    refine hready _ d (fun v => ⟨_, rfl⟩) ?_
    rw [Arena.want, hused']
    decide
  have hheld := (Arena.Held.exec hs).malloc hroom
  rw [he, hused] at hheld
  rcases hheld.malloc_eq hroom' with ⟨start', stop', heap', -, -, -, -, -, he'⟩
  have hr' := MallocReachable.step d hr hroom'
  refine ⟨_, _, hr', ?_, malloc_sound _ _ hr'⟩
  rw [he', hused']
  rfl

/-- Where no page can be had, `EndBrk` becomes an error code and the pages stay as they are. -/
theorem sysBrk_refused {s : Brk} (hs : s.Ok) {outcome : Nat → PageOutcome} {k : Nat}
    (hk : s.endBrk = k * PAGE_4K_SIZE) (hle : (k + 1) * PAGE_4K_SIZE ≤ USER_LIMIT)
    (hno : ∀ page, outcome (k * PAGE_4K_SIZE) ≠ .ready page) :
    sysBrk s none outcome ((k + 1) * PAGE_4K_SIZE)
      = (⟨s.startBrk, negErr ENOMEM, s.pages⟩, negErr ENOMEM) := by
  have hL : USER_LIMIT = 0x0000800000000000 := rfl
  have hmk := page_mul k
  have hml := page_mul (k + 1)
  have halign : alignUp64 PAGE_4K_SIZE ((k + 1) * PAGE_4K_SIZE) = (k + 1) * PAGE_4K_SIZE := by
    rw [alignUp_page (by omega)]
    congr 1
    omega
  have hone := page_mul 1
  have hsize : (k + 1) * PAGE_4K_SIZE - s.endBrk = 1 * PAGE_4K_SIZE := by
    rw [hk]
    omega
  have hmap : mapUserRange4K s.pages outcome s.endBrk ((k + 1) * PAGE_4K_SIZE - s.endBrk)
      = (s.pages, -(ENOMEM : Int)) := by
    rw [hsize, hk]
    rcases @mapUserRange4K_spec outcome s.pages k 1 hle (fun i h1 h2 => hs.free (i := i)
      (by rw [hk, show i = k by omega]) (by rw [show i = k by omega]; omega)) with
      ⟨hall, -⟩ | ⟨-, he⟩
    · rcases hall k le_rfl (by omega) with ⟨page, hpage⟩
      exact absurd hpage (hno page)
    · exact he
  rw [sysBrk_grow (c := ⟨(k + 1) * PAGE_4K_SIZE, none, outcome, by omega⟩) halign (by omega)
    (by omega) (by omega), mapUserPages_none, hmap, if_pos (by simp [ENOMEM])]

/-- There is no page to be had: `malloc` returns the start of the heap for a block of one byte, and
no page is mapped there. -/
theorem malloc_unsound : ¬ ∀ a blocks, MallocReachable (fun _ _ => True) a blocks →
    BlocksSound a.heap blocks := by
  intro hall
  rcases execveBrk_ready with ⟨s, hs, he⟩
  have hok := execveBrk_ok hs
  have hstart := (execveBrk_start hs).1
  let c : MallocCall := ⟨1, fun _ => .noPage, by decide⟩
  have hsound := hall _ _ (MallocReachable.step c (.exec hs) trivial)
  have hrefused : sysBrk s none c.outcome 0xc01000
      = (⟨s.startBrk, negErr ENOMEM, s.pages⟩, negErr ENOMEM) :=
    sysBrk_refused (k := 0xc00) hok he (by decide) (fun page h => by cases h)
  have hnew : ∃ start stop used, malloc ⟨0, 0, 0, s⟩ c.outcome c.size
      = (⟨start, stop, used, ⟨s.startBrk, negErr ENOMEM, s.pages⟩⟩, 0xc00000) := by
    rcases Arena.begin_eq (a := ⟨0, 0, 0, s⟩) c.outcome hstart with ⟨start, -, hbegin⟩
    rw [show Arena.limit ⟨0, 0, 0, s⟩ = 0xc00000 from hstart,
      show Arena.used ⟨0, 0, 0, s⟩ = 0xc00000 from hstart] at hbegin
    have hask : add64 0xc00000 (alignUp64 PAGE_4K_SIZE (add64 c.size SIZE_ALIGN)) = 0xc01000 := by
      decide
    unfold malloc
    rw [hbegin]
    unfold Arena.extend userBrk
    dsimp only
    rw [if_pos (by decide), hask, hrefused]
    exact ⟨_, _, _, rfl⟩
  rcases hnew with ⟨start, stop, used, hnew⟩
  rw [hnew] at hsound
  have hin := hsound.inHeap ⟨0xc00000, 1⟩ (by simp [record, c])
  have hpage := hin.mapped 0xc00000 le_rfl (by decide)
  have hmapped := (hok.mapped 0xc00000 (by rw [hstart]; decide) (by decide)).mp hpage
  rw [he] at hmapped
  exact absurd hmapped (by decide)

end Talios
