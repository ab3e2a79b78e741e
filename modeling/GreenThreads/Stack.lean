import GreenThreads.Fiber
import GreenThreads.Lib.GoSlice
import GreenThreads.Lib.Trans
import Mathlib.Algebra.Order.Group.Int

/-!
# GreenThreads — the simulated stack (`internal/fiber/stack.go`)

A stack is a byte array with a stack pointer. The array is allocated by the first `Push`, and what
lies above the pointer is left from earlier pushes; `contents` is what lies below it. The methods
are written for a stack made by `NewStack`, so that the receiver is not nil; a slice expression out
of range is `none`.

* `Disciplined` — the law of a bounded stack, in one state;
* `stack_discipline` — it holds after every sequence of calls;
* `clone_agrees_iff` — when a clone cannot be told from its source. An array that is allocated but
  empty is not cloned, and `Pop(0)` tells the two apart.
-/

namespace GreenThreads

/-- `type Stack struct`. -/
structure Stack where
  data : Option (List UInt8)
  sp : Int
  size : Int
  deriving DecidableEq

namespace Stack

/-- `NewStack`. -/
def new (size : Int) : Stack := ⟨none, 0, validateStackSize size⟩

variable (s : Stack)

/-- `Push`. -/
def push (data : List UInt8) : Option (Stack × Option String) :=
  let newSP := s.sp + data.length
  if s.size < newSP then
    some (s, some ("stack overflow: need " ++ toString data.length ++ " bytes, have "
      ++ toString (s.size - s.sp) ++ " available"))
  else
    (s.data.elim (GoSlice.make 0 s.size) some).bind fun buf =>
      (GoSlice.copyFrom buf s.sp data).map fun buf =>
        ({ s with data := some buf, sp := newSP }, none)

/-- `Pop`. -/
def pop (size : Int) : Option (Stack × Except String (List UInt8)) :=
  if size < 0 then
    some (s, .error ("stack pop size must not be negative: " ++ toString size))
  else if s.sp < size then
    some (s, .error ("stack underflow: want " ++ toString size ++ " bytes, sp=" ++ toString s.sp))
  else match s.data with
    | none => some (s, .error "stack underflow: backing array not initialized")
    | some buf =>
      let newSP := s.sp - size
      (GoSlice.make 0 size).bind fun data =>
        (GoSlice.sub buf newSP s.sp).map fun top =>
          ({ s with sp := newSP }, .ok (GoSlice.copy data top))

/-- `Reset`. -/
def reset : Stack := { s with sp := 0 }

/-- `Used`. -/
def used : Int := s.sp

/-- `Available`. -/
def available : Int := s.size - s.sp

/-- `Clone`. -/
def clone : Option Stack :=
  if 0 < s.sp then
    (GoSlice.make 0 s.size).map fun buf =>
      ⟨some (GoSlice.copy buf (s.data.getD [])), s.sp, s.size⟩
  else some ⟨none, s.sp, s.size⟩

/-! ## Sequences of calls -/

inductive Op where
  | push (data : List UInt8)
  | pop (size : Int)
  | reset
  | used
  | available

/-- What a call returns. -/
inductive Ret where
  | push (err : Option String)
  | pop (r : Except String (List UInt8))
  | reset
  | int (n : Int)
  deriving DecidableEq

/-- One call; `none` if it panics. -/
def call : Op → Option (Stack × Ret)
  | .push data => (s.push data).map (Prod.map id .push)
  | .pop size => (s.pop size).map (Prod.map id .pop)
  | .reset => some (s.reset, .reset)
  | .used => some (s, .int s.used)
  | .available => some (s, .int s.available)

def step (op : Op) : Option Stack := (s.call op).map Prod.fst

/-- What a sequence of calls returns. -/
def outputs : Stack → List Op → Option (List Ret)
  | _, [] => some []
  | s, op :: ops => (s.call op).bind fun r => (outputs r.1 ops).map (r.2 :: ·)

variable {s} in
theorem call_push {s' : Stack} {data : List UInt8} {err : Option String}
    (h : s.push data = some (s', err)) : s.call (.push data) = some (s', .push err) := by
  rw [call, h]
  rfl

variable {s} in
theorem call_pop {s' : Stack} {n : Int} {r : Except String (List UInt8)}
    (h : s.pop n = some (s', r)) : s.call (.pop n) = some (s', .pop r) := by
  rw [call, h]
  rfl

/-! ## The law of the stack -/

/-- The bytes stored, in push order. -/
def contents : List UInt8 := (s.data.getD []).take s.sp.toNat

/-- The law of a bounded stack. No call panics; what a call does is told by `contents`. -/
structure Disciplined : Prop where
  used_nonneg : 0 ≤ s.used
  used_le : s.used ≤ s.size
  used_eq : s.used = s.contents.length
  push : ∀ data, ∃ s' err, s.push data = some (s', err) ∧ s'.size = s.size ∧
    (err = none ↔ s.used + data.length ≤ s.size) ∧
    (err = none → s'.contents = s.contents ++ data) ∧
    (err ≠ none → s'.contents = s.contents ∧ s'.used = s.used)
  pop : ∀ n, ∃ s' r, s.pop n = some (s', r) ∧ s'.size = s.size ∧
    (1 ≤ n → ((∃ data, r = .ok data) ↔ n ≤ s.used)) ∧
    (∀ data, r = .ok data → data.length = n ∧ s.contents = s'.contents ++ data) ∧
    (∀ err, r = .error err → s'.contents = s.contents ∧ s'.used = s.used)
  reset : s.reset.contents = [] ∧ s.reset.used = 0 ∧ s.reset.size = s.size

/-- What the methods keep: the pointer is within the array, which has the size of the stack once
it is there. -/
structure Valid : Prop where
  sp_nonneg : 0 ≤ s.sp
  sp_le : s.sp ≤ s.size
  allocated : ∀ buf ∈ s.data, (buf.length : Int) = s.size
  unallocated : s.data = none → s.sp = 0

variable {s}

theorem valid_new (size : Int) : (new size).Valid :=
  ⟨le_rfl, validateStackSize_nonneg size, nofun, fun _ => rfl⟩

theorem Valid.contents_length (h : s.Valid) : (s.contents.length : Int) = s.sp := by
  obtain ⟨hnonneg, hle, halloc, hnone⟩ := h
  unfold contents
  cases hdata : s.data with
  | none =>
    have := hnone hdata
    simp [this]
  | some buf =>
    have := halloc buf hdata
    simp only [Option.getD_some, List.length_take]
    omega

/-- The array a `Push` writes to. -/
theorem Valid.buffer (h : s.Valid) : ∃ buf, s.data.elim (GoSlice.make 0 s.size) some = some buf ∧
    (buf.length : Int) = s.size ∧ buf.take s.sp.toNat = s.contents := by
  obtain ⟨hnonneg, hle, halloc, hnone⟩ := h
  unfold contents
  cases hdata : s.data with
  | none =>
    refine ⟨List.replicate s.size.toNat 0, ?_, ?_, ?_⟩
    · simp [GoSlice.make, hnonneg.trans hle]
    · simp [hnonneg.trans hle]
    · simp [hnone hdata]
  | some buf => exact ⟨buf, rfl, halloc buf hdata, rfl⟩

/-- A `Push` that does not fit changes nothing, and one that fits appends. -/
theorem Valid.push (h : s.Valid) (data : List UInt8) :
    (s.size < s.sp + data.length ∧ ∃ err, s.push data = some (s, some err)) ∨
      s.sp + data.length ≤ s.size ∧ ∃ s', s.push data = some (s', none) ∧ s'.Valid ∧
        s'.data.isSome ∧ s'.size = s.size ∧ s'.sp = s.sp + data.length ∧
        s'.contents = s.contents ++ data := by
  unfold Stack.push
  by_cases hfull : s.size < s.sp + data.length
  · exact .inl ⟨hfull, _, if_pos hfull⟩
  · -- the copy goes between what is stored and what is stale
    obtain ⟨buf, hbuf, hlen, htake⟩ := h.buffer
    have hfit : s.sp + data.length ≤ (buf.length : Int) := by omega
    have hcopy := GoSlice.copyFrom_eq h.sp_nonneg hfit
    have hsp := h.sp_nonneg
    refine .inr ⟨by omega, { s with
      data := some (buf.take s.sp.toNat ++ data ++ buf.drop (s.sp.toNat + data.length))
      sp := s.sp + data.length }, ?_, ⟨?_, ?_, ?_, nofun⟩, rfl, rfl, rfl, ?_⟩
    · rw [if_neg hfull, hbuf, Option.bind_some, hcopy, Option.map_some]
    · dsimp only
      omega
    · dsimp only
      omega
    · intro buf' hbuf'
      cases hbuf'
      simp only [List.length_append, List.length_take, List.length_drop]
      omega
    · rw [← htake]
      have hpref : (s.sp + data.length).toNat = (buf.take s.sp.toNat ++ data).length := by
        simp only [List.length_append, List.length_take]
        omega
      simp only [contents, Option.getD_some, hpref]
      exact List.take_left

/-! The three errors of `Pop` change nothing. -/

theorem pop_of_neg {n : Int} (h : n < 0) : s.pop n
    = some (s, .error ("stack pop size must not be negative: " ++ toString n)) := if_pos h

theorem pop_of_underflow {n : Int} (hn : 0 ≤ n) (h : s.sp < n) : s.pop n
    = some (s, .error ("stack underflow: want " ++ toString n ++ " bytes, sp="
      ++ toString s.sp)) := by
  rw [Stack.pop, if_neg (not_lt.mpr hn), if_pos h]

theorem pop_of_unallocated {n : Int} (hn : 0 ≤ n) (h : n ≤ s.sp) (hdata : s.data = none) :
    s.pop n = some (s, .error "stack underflow: backing array not initialized") := by
  rw [Stack.pop, if_neg (not_lt.mpr hn), if_neg (not_lt.mpr h)]
  simp only [hdata]

/-- In every other case `Pop` takes off the last bytes. -/
theorem Valid.pop (h : s.Valid) {n : Int} (hn : 0 ≤ n) (hle : n ≤ s.sp) (hsome : s.data.isSome) :
    ∃ data, s.pop n = some ({ s with sp := s.sp - n }, .ok data) ∧ data.length = n ∧
      s.contents = { s with sp := s.sp - n }.contents ++ data := by
  obtain ⟨buf, hdata⟩ := Option.isSome_iff_exists.mp hsome
  have hlen := h.allocated buf hdata
  have hsize := h.sp_le
  have hsub : GoSlice.sub buf (s.sp - n) s.sp
      = some ((buf.take s.sp.toNat).drop (s.sp - n).toNat) := if_pos (by omega)
  have hmake : GoSlice.make (0 : UInt8) n = some (List.replicate n.toNat 0) := if_pos hn
  have htop : ((buf.take s.sp.toNat).drop (s.sp - n).toNat).length = n.toNat := by
    simp only [List.length_drop, List.length_take]
    omega
  refine ⟨(buf.take s.sp.toNat).drop (s.sp - n).toNat, ?_, by omega, ?_⟩
  · rw [Stack.pop, if_neg (not_lt.mpr hn), if_neg (not_lt.mpr hle)]
    simp only [hdata, hmake, hsub, Option.bind_some, Option.map_some]
    rw [GoSlice.copy_eq_of_length_eq (by rw [htop, List.length_replicate])]
  · have hmin : min (s.sp - n).toNat s.sp.toNat = (s.sp - n).toNat := by omega
    have hshorter : buf.take (s.sp - n).toNat = (buf.take s.sp.toNat).take (s.sp - n).toNat := by
      rw [List.take_take, hmin]
    simp only [contents, hdata, Option.getD_some]
    rw [hshorter, List.take_append_drop]

/-- The outcome of `Pop`. Without an array it fails, also for no bytes. -/
theorem Valid.pop_cases (h : s.Valid) (n : Int) :
    ((n < 0 ∨ s.sp < n ∨ s.data = none) ∧ ∃ err, s.pop n = some (s, .error err)) ∨
      0 ≤ n ∧ n ≤ s.sp ∧ s.data.isSome ∧
        ∃ data, s.pop n = some ({ s with sp := s.sp - n }, .ok data) ∧ data.length = n ∧
          s.contents = { s with sp := s.sp - n }.contents ++ data := by
  by_cases hneg : n < 0
  · exact .inl ⟨.inl hneg, _, pop_of_neg hneg⟩
  have hn : 0 ≤ n := not_lt.mp hneg
  by_cases hunder : s.sp < n
  · exact .inl ⟨.inr (.inl hunder), _, pop_of_underflow hn hunder⟩
  have hle : n ≤ s.sp := not_lt.mp hunder
  cases hdata : s.data with
  | none => exact .inl ⟨.inr (.inr rfl), _, pop_of_unallocated hn hle hdata⟩
  | some buf =>
    have hpop := h.pop hn hle (by rw [hdata]; rfl)
    rw [hdata] at hpop
    exact .inr ⟨hn, hle, rfl, hpop⟩

theorem Valid.disciplined (h : s.Valid) : s.Disciplined where
  used_nonneg := h.sp_nonneg
  used_le := h.sp_le
  used_eq := h.contents_length.symm
  push data := by
    rcases h.push data with ⟨hfull, err, heq⟩ | ⟨hfit, s', heq, -, -, hsize, -, hcontents⟩
    · refine ⟨s, some err, heq, rfl, iff_of_false nofun ?_, nofun, fun _ => ⟨rfl, rfl⟩⟩
      exact not_le.mpr hfull
    · exact ⟨s', none, heq, hsize, iff_of_true rfl hfit, fun _ => hcontents, fun h => absurd rfl h⟩
  pop n := by
    rcases h.pop_cases n with ⟨hfail, err, heq⟩ | ⟨-, hle, -, data, heq, hlen, hcontents⟩
    · refine ⟨s, .error err, heq, rfl, fun hn => iff_of_false nofun fun hle => ?_, nofun,
        fun _ _ => ⟨rfl, rfl⟩⟩
      -- there is no array only if nothing is stored
      unfold used at hle
      rcases hfail with hneg | hunder | hnone
      · omega
      · omega
      · have := h.unallocated hnone
        omega
    · refine ⟨_, .ok data, heq, rfl, fun _ => iff_of_true ⟨data, rfl⟩ hle, ?_, nofun⟩
      intro data' hdata'
      cases hdata'
      exact ⟨hlen, hcontents⟩
  reset := ⟨by simp [contents, Stack.reset], rfl, rfl⟩

/-- Every call returns, and keeps the pointer within the array. -/
theorem Valid.call (h : s.Valid) (op : Op) : ∃ s' r, s.call op = some (s', r) ∧ s'.Valid := by
  cases op with
  | push data =>
    rcases h.push data with ⟨-, err, heq⟩ | ⟨-, s', heq, hvalid, -⟩
    · exact ⟨s, _, call_push heq, h⟩
    · exact ⟨s', _, call_push heq, hvalid⟩
  | pop n =>
    rcases h.pop_cases n with ⟨-, err, heq⟩ | ⟨hn, hle, hsome, data, heq, -⟩
    · exact ⟨s, _, call_pop heq, h⟩
    · refine ⟨{ s with sp := s.sp - n }, _, call_pop heq, ⟨?_, ?_, h.allocated, fun hnone => ?_⟩⟩
      · dsimp only
        omega
      · have := h.sp_le
        dsimp only
        omega
      · rw [hnone] at hsome
        cases hsome
  | reset =>
    exact ⟨_, _, rfl, le_rfl, h.sp_nonneg.trans h.sp_le, h.allocated, fun _ => rfl⟩
  | used | available => exact ⟨s, _, rfl, h⟩

theorem Valid.step (h : s.Valid) (op : Op) : ∃ s', s.step op = some s' ∧ s'.Valid := by
  obtain ⟨s', r, heq, hvalid⟩ := h.call op
  exact ⟨s', by rw [Stack.step, heq]; rfl, hvalid⟩

/-- Every sequence of calls returns. Induction on the calls. -/
theorem Valid.exec (h : s.Valid) (ops : List Op) :
    ∃ s', Trans.exec Stack.step s ops = some s' ∧ s'.Valid := by
  induction ops generalizing s with
  | nil => exact ⟨s, rfl, h⟩
  | cons op ops ih =>
    obtain ⟨s₁, hs₁, hvalid₁⟩ := h.step op
    obtain ⟨s', hs', hvalid'⟩ := ih hvalid₁
    exact ⟨s', by rw [Trans.exec, hs₁]; exact hs', hvalid'⟩

/-- The stack of every requested size obeys the law after every sequence of calls. -/
theorem stack_discipline (size : Int) (ops : List Op) :
    ∃ s, Trans.exec step (new size) ops = some s ∧ s.Disciplined := by
  obtain ⟨s, hs, hvalid⟩ := (valid_new size).exec ops
  exact ⟨s, hs, hvalid.disciplined⟩

/-! ## Clones -/

/-- Two stacks that no call can tell apart: they store the same, and both have an array or
neither. -/
structure Alike (s t : Stack) : Prop where
  sp : t.sp = s.sp
  size : t.size = s.size
  contents : t.contents = s.contents
  allocated : t.data.isSome = s.data.isSome

section

variable {t : Stack}

theorem push_of_full {data : List UInt8} (h : s.size < s.sp + data.length) : s.push data
    = some (s, some ("stack overflow: need " ++ toString data.length ++ " bytes, have "
      ++ toString (s.size - s.sp) ++ " available")) := if_pos h

theorem Alike.push (h : s.Alike t) (hs : s.Valid) (ht : t.Valid) (data : List UInt8) :
    ∃ s' t' err, s.push data = some (s', err) ∧ t.push data = some (t', err) ∧ s'.Alike t' := by
  rcases hs.push data with ⟨hfull, -⟩ | ⟨hfit, s', heq, -, hsome, hsize, hsp, hcontents⟩
  · refine ⟨s, t, _, push_of_full hfull, ?_, h⟩
    rw [push_of_full (by rw [h.sp, h.size]; exact hfull), h.sp, h.size]
  · rcases ht.push data with ⟨hfull, -⟩ | ⟨-, t', heq', -, hsome', hsize', hsp', hcontents'⟩
    · rw [h.sp, h.size] at hfull
      omega
    · refine ⟨s', t', none, heq, heq', ?_, ?_, ?_, hsome'.trans hsome.symm⟩
      · rw [hsp', hsp, h.sp]
      · rw [hsize', hsize, h.size]
      · rw [hcontents', hcontents, h.contents]

theorem Alike.pop (h : s.Alike t) (hs : s.Valid) (ht : t.Valid) (n : Int) :
    ∃ s' t' r, s.pop n = some (s', r) ∧ t.pop n = some (t', r) ∧ s'.Alike t' := by
  have hsp := h.sp
  by_cases hneg : n < 0
  · exact ⟨s, t, _, pop_of_neg hneg, pop_of_neg hneg, h⟩
  have hn : 0 ≤ n := not_lt.mp hneg
  by_cases hunder : s.sp < n
  · refine ⟨s, t, _, pop_of_underflow hn hunder, ?_, h⟩
    rw [pop_of_underflow hn (by rw [hsp]; exact hunder), hsp]
  have hle : n ≤ s.sp := not_lt.mp hunder
  have hle' : n ≤ t.sp := by rwa [hsp]
  cases hsome : s.data.isSome with
  | false =>
    have hnone : s.data = none := by simpa using hsome
    have hnone' : t.data = none := by simpa [hnone] using h.allocated
    exact ⟨s, t, _, pop_of_unallocated hn hle hnone, pop_of_unallocated hn hle' hnone', h⟩
  | true =>
    obtain ⟨data, heq, hlen, hcontents⟩ := hs.pop hn hle hsome
    obtain ⟨data', heq', hlen', hcontents'⟩ := ht.pop hn hle' (h.allocated.trans hsome)
    rw [h.contents, hcontents] at hcontents'
    obtain ⟨hrest, rfl⟩ := List.append_inj' hcontents' (by omega)
    refine ⟨_, _, .ok data, heq, heq', ?_, h.size, hrest.symm, h.allocated⟩
    dsimp only
    rw [hsp]

theorem Alike.reset (h : s.Alike t) : s.reset.Alike t.reset :=
  ⟨rfl, h.size, by simp [Stack.contents, Stack.reset], h.allocated⟩

/-- The same call returns the same on both, and they stay alike. -/
theorem Alike.call (h : s.Alike t) (hs : s.Valid) (ht : t.Valid) (op : Op) :
    ∃ s' t' r, s.call op = some (s', r) ∧ t.call op = some (t', r) ∧ s'.Alike t' := by
  cases op with
  | push data =>
    obtain ⟨s', t', err, heq, heq', h'⟩ := h.push hs ht data
    exact ⟨s', t', .push err, call_push heq, call_push heq', h'⟩
  | pop n =>
    obtain ⟨s', t', r, heq, heq', h'⟩ := h.pop hs ht n
    exact ⟨s', t', .pop r, call_pop heq, call_pop heq', h'⟩
  | reset => exact ⟨_, _, .reset, rfl, rfl, h.reset⟩
  | used => exact ⟨s, t, _, rfl, by rw [Stack.call, used, h.sp]; rfl, h⟩
  | available => exact ⟨s, t, _, rfl, by rw [Stack.call, available, h.sp, h.size]; rfl, h⟩

/-- Both stacks answer every call of the sequence, and give the same answers exactly if `p`. -/
def AgreeIff (s t : Stack) (ops : List Op) (p : Prop) : Prop :=
  ∃ rs rs', s.outputs ops = some rs ∧ t.outputs ops = some rs' ∧ (rs' = rs ↔ p)

theorem outputs_cons {s' : Stack} {op : Op} {r : Ret} (h : s.call op = some (s', r))
    (ops : List Op) : s.outputs (op :: ops) = (s'.outputs ops).map (r :: ·) := by
  rw [outputs, h]
  rfl

/-- Every sequence of calls is answered. Induction on the calls. -/
theorem Valid.outputs (h : s.Valid) (ops : List Op) : ∃ rs, s.outputs ops = some rs := by
  induction ops generalizing s with
  | nil => exact ⟨[], rfl⟩
  | cons op ops ih =>
    obtain ⟨s', r, heq, hvalid⟩ := h.call op
    obtain ⟨rs, hrs⟩ := ih hvalid
    exact ⟨r :: rs, by rw [outputs_cons heq, hrs, Option.map_some]⟩

/-- A call that both answer alike makes no difference. -/
theorem AgreeIff.cons {s' t' : Stack} {op : Op} {r : Ret} {ops : List Op} {p : Prop}
    (h : AgreeIff s' t' ops p) (hs : s.call op = some (s', r)) (ht : t.call op = some (t', r)) :
    AgreeIff s t (op :: ops) p := by
  obtain ⟨rs, rs', hrs, hrs', hiff⟩ := h
  refine ⟨r :: rs, r :: rs', ?_, ?_, ?_⟩
  · rw [outputs_cons hs, hrs, Option.map_some]
  · rw [outputs_cons ht, hrs', Option.map_some]
  · rw [List.cons.injEq, eq_self_iff_true, true_and, hiff]

/-- Stacks that are alike give the same answers. Induction on the calls. -/
theorem Alike.agreeIff (h : s.Alike t) (hs : s.Valid) (ht : t.Valid) (ops : List Op) {p : Prop}
    (hp : p) : AgreeIff s t ops p := by
  induction ops generalizing s t with
  | nil => exact ⟨[], [], rfl, rfl, iff_of_true rfl hp⟩
  | cons op ops ih =>
    obtain ⟨s', t', r, heq, heq', h'⟩ := h.call hs ht op
    obtain ⟨s₁, r₁, hs₁, hvalid⟩ := hs.call op
    obtain ⟨t₁, r₂, ht₁, hvalid'⟩ := ht.call op
    cases heq.symm.trans hs₁
    cases heq'.symm.trans ht₁
    exact (ih h' hvalid hvalid').cons heq heq'

end

/-! ### An empty stack with an array, and one without -/

/-- On an empty stack of the given size: a `Pop(0)` comes before any `Push` that fits. -/
def popsZeroFirst (size : Int) : List Op → Bool
  | [] => false
  | .pop n :: ops => n == 0 || popsZeroFirst size ops
  | .push data :: ops => !decide ((data.length : Int) ≤ size) && popsZeroFirst size ops
  | .reset :: ops | .used :: ops | .available :: ops => popsZeroFirst size ops

/-- The stack without an array. -/
def bare (size : Int) : Stack := ⟨none, 0, size⟩

theorem Valid.bare (h : s.Valid) : (bare s.size).Valid :=
  ⟨le_rfl, h.sp_nonneg.trans h.sp_le, nofun, fun _ => rfl⟩

/-- They are alike after a `Push` that fits. -/
theorem bare_push {data : List UInt8} (h : s.Valid) (hsp : s.sp = 0)
    (hfit : (data.length : Int) ≤ s.size) :
    ∃ s' t', s.push data = some (s', none) ∧ (bare s.size).push data = some (t', none) ∧
      s'.Valid ∧ t'.Valid ∧ s'.Alike t' := by
  have hroom : s.sp + data.length ≤ s.size := by omega
  rcases h.push data with ⟨hfull, -⟩ | ⟨-, s', heq, hvalid, hsome, hsize, hsp', hcontents⟩
  · omega
  rcases h.bare.push data with ⟨hfull, -⟩
    | ⟨-, t', heq', hvalid', hsome', hsize', hsp'', hcontents'⟩
  · simp only [Stack.bare] at hfull
    omega
  refine ⟨s', t', heq, heq', hvalid, hvalid', ?_, hsize'.trans hsize.symm, ?_,
    hsome'.trans hsome.symm⟩
  · rw [hsp'', hsp', hsp]
    rfl
  · rw [hcontents', hcontents]
    simp [contents, hsp, Stack.bare]

/-- One has nothing to give and gives it, the other fails. -/
theorem bare_pop_zero (h : s.Valid) (hsome : s.data.isSome) (hsp : s.sp = 0) (ops : List Op) :
    AgreeIff s (bare s.size) (.pop 0 :: ops) False := by
  obtain ⟨data, heq, -⟩ := h.pop le_rfl hsp.ge hsome
  have hfail := pop_of_unallocated (s := bare s.size) le_rfl le_rfl rfl
  obtain ⟨s', r, hs', hvalid⟩ := h.call (.pop 0)
  cases (call_pop heq).symm.trans hs'
  obtain ⟨rs, hrs⟩ := hvalid.outputs ops
  obtain ⟨rs', hrs'⟩ := h.bare.outputs ops
  have hrun : s.outputs (.pop 0 :: ops) = some (.pop (.ok data) :: rs) := by
    rw [outputs_cons (call_pop heq), hrs, Option.map_some]
  have hrun' := outputs_cons (call_pop hfail) ops
  rw [hrs', Option.map_some] at hrun'
  exact ⟨_, _, hrun, hrun', iff_of_false nofun id⟩

/-- They answer alike up to a `Pop(0)`, and are alike from the first `Push` that fits on. Induction
on the calls. -/
theorem bare_agreeIff (h : s.Valid) (hsome : s.data.isSome) (hsp : s.sp = 0) (ops : List Op) :
    AgreeIff s (bare s.size) ops (popsZeroFirst s.size ops = false) := by
  induction ops with
  | nil => exact ⟨[], [], rfl, rfl, iff_of_true rfl rfl⟩
  | cons op ops ih =>
    cases op with
    | push data =>
      by_cases hfit : (data.length : Int) ≤ s.size
      · obtain ⟨s', t', heq, heq', hvalid, hvalid', halike⟩ := bare_push h hsp hfit
        refine (halike.agreeIff hvalid hvalid' ops ?_).cons (call_push heq) (call_push heq')
        simp [popsZeroFirst, hfit]
      · have hfull : s.size < s.sp + data.length := by omega
        have hfull' : (bare s.size).size < (bare s.size).sp + data.length := by
          simp only [Stack.bare]
          omega
        have heq := push_of_full hfull
        rw [hsp] at heq
        have hpops : popsZeroFirst s.size (.push data :: ops) = popsZeroFirst s.size ops := by
          simp [popsZeroFirst, hfit]
        rw [hpops]
        exact ih.cons (call_push heq) (call_push (push_of_full hfull'))
    | pop n =>
      rcases lt_trichotomy n 0 with hneg | rfl | hpos
      · have hpops : popsZeroFirst s.size (.pop n :: ops) = popsZeroFirst s.size ops := by
          simp [popsZeroFirst, hneg.ne]
        rw [hpops]
        exact ih.cons (call_pop (pop_of_neg hneg)) (call_pop (pop_of_neg hneg))
      · have hpops : (popsZeroFirst s.size (.pop 0 :: ops) = false) = False := by
          simp [popsZeroFirst]
        rw [hpops]
        exact bare_pop_zero h hsome hsp ops
      · have hpops : popsZeroFirst s.size (.pop n :: ops) = popsZeroFirst s.size ops := by
          simp [popsZeroFirst, hpos.ne']
        have heq := pop_of_underflow (s := s) hpos.le (by omega)
        rw [hsp] at heq
        rw [hpops]
        exact ih.cons (call_pop heq) (call_pop (pop_of_underflow hpos.le hpos))
    | reset =>
      have hreset : s.reset = s := by rw [Stack.reset, ← hsp]
      exact ih.cons (r := .reset) (by rw [call, hreset]) rfl
    | used => exact ih.cons (r := .int 0) (by rw [call, used, hsp]) rfl
    | available =>
      refine ih.cons (r := .int s.size) ?_ ?_
      · rw [call, available, hsp, Int.sub_zero]
      · rw [call, available, Stack.bare, Int.sub_zero]

/-! ### `Clone` -/

/-- A stack that stores something is cloned with its array. -/
theorem Valid.clone_of_pos (h : s.Valid) (hpos : 0 < s.sp) :
    ∃ t, s.clone = some t ∧ t.Valid ∧ s.Alike t := by
  obtain ⟨buf, hdata⟩ : ∃ buf, s.data = some buf := by
    rw [← Option.ne_none_iff_exists']
    intro hnone
    exact hpos.ne' (h.unallocated hnone)
  have hlen := h.allocated buf hdata
  have hmake : GoSlice.make (0 : UInt8) s.size = some (List.replicate s.size.toNat 0) :=
    if_pos (h.sp_nonneg.trans h.sp_le)
  have hcopy : GoSlice.copy (List.replicate s.size.toNat 0) buf = buf :=
    GoSlice.copy_eq_of_length_eq (by rw [List.length_replicate]; omega)
  refine ⟨⟨some buf, s.sp, s.size⟩, ?_, ⟨h.sp_nonneg, h.sp_le, ?_, nofun⟩, rfl, rfl, ?_, ?_⟩
  · rw [clone, if_pos hpos, hmake, hdata, Option.getD_some, Option.map_some, hcopy]
  · intro buf' hbuf'
    cases hbuf'
    exact hlen
  · simp [contents, hdata]
  · rw [hdata]

/-- On every stack reached by any calls, the clone and its source give the same answers to a
sequence of calls exactly if it is not the case that the source is empty, has an array, and the
sequence has a `Pop(0)` before any `Push` that fits. -/
theorem clone_agrees_iff (size : Int) {s : Stack} (h : Trans.Reach step Trans.anyStep (new size) s)
    (ops : List Op) : ∃ t, s.clone = some t ∧
      AgreeIff s t ops (¬ (s.used = 0 ∧ s.data.isSome ∧ popsZeroFirst s.size ops = true)) := by
  have hvalid : s.Valid := by
    refine Trans.Reach.invariant (P := Valid) (valid_new size) (fun s op s' hs _ hstep => ?_) h
    obtain ⟨s₁, hs₁, hvalid₁⟩ := hs.step op
    cases hs₁.symm.trans hstep
    exact hvalid₁
  by_cases hpos : 0 < s.sp
  · obtain ⟨t, ht, hvalid', halike⟩ := hvalid.clone_of_pos hpos
    exact ⟨t, ht, halike.agreeIff hvalid hvalid' ops fun hp => hpos.ne' hp.1⟩
  · have hsp : s.sp = 0 := le_antisymm (not_lt.mp hpos) hvalid.sp_nonneg
    have hclone : s.clone = some (bare s.size) := by rw [clone, if_neg hpos, hsp]; rfl
    refine ⟨bare s.size, hclone, ?_⟩
    cases hsome : s.data.isSome with
    | false =>
      -- there was no array to begin with
      have hdata : s.data = none := by simpa using hsome
      have halike : s.Alike (bare s.size) := by
        refine ⟨hsp.symm, rfl, ?_, ?_⟩
        · simp [contents, hsp, bare]
        · rw [hdata]
          rfl
      exact halike.agreeIff hvalid hvalid.bare ops fun hp => absurd hp.2.1 Bool.false_ne_true
    | true =>
      obtain ⟨rs, rs', hrs, hrs', hiff⟩ := bare_agreeIff hvalid hsome hsp ops
      refine ⟨rs, rs', hrs, hrs', hiff.trans ?_⟩
      simp [used, hsp]

/-- A stack with one byte on it agrees with its clone about everything. -/
theorem clone_agrees_iff_pushed :
    ∃ s, Trans.Reach step Trans.anyStep (new 0) s ∧ s.contents = [7] ∧
      ∃ t, s.clone = some t ∧ AgreeIff s t [.pop 0, .pop 1, .pop 1] True := by
  obtain ⟨s, hs, hp⟩ := Trans.exists_reach_of_exec step (new 0) [.push [7]]
    (fun s => s.contents == [7] && s.used == 1) (by decide +kernel)
  simp only [Bool.and_eq_true, beq_iff_eq] at hp
  obtain ⟨t, ht, rs, rs', hrs, hrs', hiff⟩ := clone_agrees_iff 0 hs [.pop 0, .pop 1, .pop 1]
  refine ⟨s, hs, hp.1, t, ht, rs, rs', hrs, hrs', hiff.trans (iff_of_true ?_ trivial)⟩
  rw [hp.2]
  exact fun h => absurd h.1 (by decide)

/-- After a push and a pop the array is there and nothing is in it: `Pop(0)` returns no bytes on
the stack and an error on its clone. -/
theorem clone_differs :
    ∃ s, Trans.Reach step Trans.anyStep (new 0) s ∧ s.outputs [.pop 0] = some [.pop (.ok [])] ∧
      ∃ t, s.clone = some t ∧ t.outputs [.pop 0]
        = some [.pop (.error "stack underflow: backing array not initialized")] := by
  obtain ⟨s, hs, hp⟩ := Trans.exists_reach_of_exec step (new 0) [.push [7], .pop 1]
    (fun s => s.outputs [.pop 0] == some [.pop (.ok [])] && s.clone == some (bare 4096))
    (by decide +kernel)
  simp only [Bool.and_eq_true, beq_iff_eq] at hp
  exact ⟨s, hs, hp.1, bare 4096, hp.2, rfl⟩

end Stack

end GreenThreads
