import Mathlib.Tactic

set_option autoImplicit false

/-! # Reading a stream, call by call

A `Reading` takes what it needs from the front of a stream, and has no result (it waits) where the
stream is too short for it. `Steady` says that it looks at nothing behind what it takes; the rules
for `pure`, `next` and `bind` prove it of a whole program.

`run` makes one call of a step after the other until a call waits. `run_append` is the induction
rule for it: a run on a longer stream goes on from where the run on the first part stands, with
what the waiting call has taken.
-/

namespace StreamRead

variable {τ σ α β : Type}

/-- A program that reads from a stream. -/
abbrev Reading (τ α : Type) := StateT (List τ) Option α

/-- The next element. -/
def next : Reading τ τ
  | [] => none
  | x :: xs => some (x, xs)

/-- A result depends only on what has been taken from the stream. -/
def Steady (f : Reading τ α) : Prop :=
  ∀ xs a rest, f xs = some (a, rest) →
    ∃ used, xs = used ++ rest ∧ ∀ tail, f (used ++ tail) = some (a, tail)

@[simp] theorem pure_apply (a : α) (xs : List τ) : (pure a : Reading τ α) xs = some (a, xs) := rfl

@[simp] theorem next_bind_nil (g : τ → Reading τ α) : (next >>= g) [] = none := rfl

@[simp] theorem next_bind_cons (g : τ → Reading τ α) (x : τ) (xs : List τ) :
    (next >>= g) (x :: xs) = g x xs := rfl

@[simp] theorem ite_run (p : Prop) [Decidable p] (f g : Reading τ α) (xs : List τ) :
    (if p then f else g) xs = if p then f xs else g xs := by
  by_cases hp : p
  · rw [if_pos hp, if_pos hp]
  · rw [if_neg hp, if_neg hp]

theorem steady_pure (a : α) : Steady (pure a : Reading τ α) := by
  intro xs b rest h
  cases h
  exact ⟨[], rfl, fun _ => rfl⟩

theorem steady_next : Steady (next : Reading τ τ) := by
  intro xs a rest h
  cases xs with
  | nil => cases h
  | cons x xs =>
      cases h
      exact ⟨[a], rfl, fun _ => rfl⟩

theorem bind_eq_some {f : Reading τ α} {g : α → Reading τ β} {xs rest : List τ} {b : β} :
    (f >>= g) xs = some (b, rest) ↔ ∃ a mid, f xs = some (a, mid) ∧ g a mid = some (b, rest) := by
  show (f xs).bind (fun r => g r.1 r.2) = some (b, rest) ↔ _
  rw [Option.bind_eq_some_iff]
  exact ⟨fun ⟨r, h1, h2⟩ => ⟨r.1, r.2, h1, h2⟩, fun ⟨a, mid, h1, h2⟩ => ⟨(a, mid), h1, h2⟩⟩

theorem bind_of_some {f : Reading τ α} {g : α → Reading τ β} {xs mid : List τ} {a : α}
    (h : f xs = some (a, mid)) : (f >>= g) xs = g a mid := by
  show (f xs).bind (fun r => g r.1 r.2) = _
  rw [h]
  rfl

theorem steady_bind {f : Reading τ α} {g : α → Reading τ β} (hf : Steady f) (hg : ∀ a, Steady (g a)) :
    Steady (f >>= g) := by
  intro xs b rest h
  rcases bind_eq_some.mp h with ⟨a, mid, h1, h2⟩
  rcases hf xs a mid h1 with ⟨used, rfl, hused⟩
  rcases hg a mid b rest h2 with ⟨more, rfl, hmore⟩
  refine ⟨used ++ more, (List.append_assoc _ _ _).symm, fun tail => ?_⟩
  apply bind_eq_some.mpr
  refine ⟨a, more ++ tail, ?_, hmore tail⟩
  rw [List.append_assoc]
  exact hused _

theorem steady_ite {p : Prop} [Decidable p] {f g : Reading τ α} (hf : Steady f) (hg : Steady g) :
    Steady (if p then f else g) := by
  by_cases hp : p
  · rwa [if_pos hp]
  · rwa [if_neg hp]

/-! ## Calls -/

/-- A call that has returned: what it has taken, and its value. -/
structure Call (τ β : Type) where
  read : List τ
  value : β

/-- A run: the calls that have returned, the state after them, and what the last call, which waits,
has taken. -/
structure Run (τ σ β : Type) where
  calls : List (Call τ β)
  state : σ
  waiting : List τ

/-- At most `n` calls. -/
def runFor (step : σ → Reading τ (σ × β)) : Nat → σ → List τ → Run τ σ β
  | 0, s, xs => ⟨[], s, xs⟩
  | n + 1, s, xs =>
      match step s xs with
      | none => ⟨[], s, xs⟩
      | some ((s₁, v), rest) =>
          let r := runFor step n s₁ rest
          ⟨⟨xs.take (xs.length - rest.length), v⟩ :: r.calls, r.state, r.waiting⟩

/-- All calls that return. -/
def run (step : σ → Reading τ (σ × β)) (s : σ) (xs : List τ) : Run τ σ β :=
  runFor step xs.length s xs

/-- A step that looks at nothing behind what it takes, and takes something. -/
structure Reads (step : σ → Reading τ (σ × β)) : Prop where
  steady : ∀ s, Steady (step s)
  waits : ∀ s, step s [] = none

section

variable {step : σ → Reading τ (σ × β)} {s s₁ : σ} {v : β} {xs rest : List τ}

/-- What a call takes is not empty, and more behind it changes nothing. -/
theorem Reads.used (hr : Reads step) (h : step s xs = some ((s₁, v), rest)) :
    ∃ used, used ≠ [] ∧ xs = used ++ rest ∧ ∀ tail, step s (used ++ tail) = some ((s₁, v), tail) := by
  rcases hr.steady s xs (s₁, v) rest h with ⟨used, he, hused⟩
  refine ⟨used, ?_, he, hused⟩
  rintro rfl
  have hnone := hused []
  rw [List.append_nil, hr.waits] at hnone
  cases hnone

theorem runFor_wait (h : step s xs = none) (n : Nat) : runFor step n s xs = ⟨[], s, xs⟩ := by
  cases n with
  | zero => rfl
  | succ n => rw [runFor, h]

/-- The calls are as many as the stream allows, not more. -/
theorem runFor_eq (hr : Reads step) (n : Nat) : ∀ (s : σ) (xs : List τ), xs.length ≤ n →
    runFor step n s xs = run step s xs := by
  induction n using Nat.strong_induction_on with
  | _ n ih =>
      intro s xs hn
      cases hstep : step s xs with
      | none => rw [run, runFor_wait hstep, runFor_wait hstep]
      | some r =>
          rcases r with ⟨⟨s₁, v⟩, rest⟩
          rcases hr.used hstep with ⟨used, hne, rfl, -⟩
          have hpos := List.length_pos_of_ne_nil hne
          rw [List.length_append] at hn
          -- both are one call and a run on what is left of the stream
          rcases n with _ | n
          · omega
          rcases hk : (used ++ rest).length with _ | k
          · rw [List.length_append] at hk
            omega
          rw [List.length_append] at hk
          rw [run, List.length_append, hk, runFor, hstep, runFor, hstep]
          dsimp only
          rw [ih n (by omega) s₁ rest (by omega), ih k (by omega) s₁ rest (by omega)]

theorem run_wait (h : step s xs = none) : run step s xs = ⟨[], s, xs⟩ := runFor_wait h _

/-- **One call**, and the run goes on. -/
theorem run_call (hr : Reads step) {used : List τ}
    (h : step s (used ++ rest) = some ((s₁, v), rest)) :
    run step s (used ++ rest) = ⟨⟨used, v⟩ :: (run step s₁ rest).calls, (run step s₁ rest).state,
      (run step s₁ rest).waiting⟩ := by
  rcases hr.used h with ⟨used', hne, he, -⟩
  rw [← List.append_cancel_right he] at hne
  have hpos := List.length_pos_of_ne_nil hne
  rcases hk : (used ++ rest).length with _ | k
  · rw [List.length_append] at hk
    omega
  rw [run, hk, runFor, h]
  rw [List.length_append] at hk
  have htake : (used ++ rest).take ((used ++ rest).length - rest.length) = used := by
    rw [List.length_append, Nat.add_sub_cancel, List.take_left']
    rfl
  dsimp only
  rw [htake, runFor_eq hr k s₁ rest (by omega)]

/-- **A longer stream**: the run goes on from where it stands. -/
theorem run_append (hr : Reads step) (ys : List τ) (n : Nat) : ∀ (s : σ) (xs : List τ),
    xs.length ≤ n →
    run step s (xs ++ ys)
      = ⟨(run step s xs).calls
            ++ (run step (run step s xs).state ((run step s xs).waiting ++ ys)).calls,
        (run step (run step s xs).state ((run step s xs).waiting ++ ys)).state,
        (run step (run step s xs).state ((run step s xs).waiting ++ ys)).waiting⟩ := by
  induction n using Nat.strong_induction_on with
  | _ n ih =>
      intro s xs hn
      cases hstep : step s xs with
      | none => rw [run_wait hstep]; rfl
      | some r =>
          rcases r with ⟨⟨s₁, v⟩, rest⟩
          rcases hr.used hstep with ⟨used, hne, rfl, hused⟩
          have hpos := List.length_pos_of_ne_nil hne
          rw [List.length_append] at hn
          rw [List.append_assoc, run_call hr (hused (rest ++ ys)), run_call hr hstep,
            ih rest.length (by omega) s₁ rest le_rfl]
          rfl

end

end StreamRead
