import Mathlib.Data.List.Perm.Basic
import Mathlib.Logic.Relation

/-!
# Binary heaps in a slice

The binary heap of Go's `container/heap` over a slice whose entries may note the position they
are stored at. An index out of range is a panic, here `none`.

The algorithms rearrange the slice through `swap` alone: `Swaps o m` is the closure of
swaps of positions below `m`, and everything the module proves about an operation it proves
about `Swaps` (length, contents, noted positions, what is left alone).
-/

namespace SliceHeap

/-- What the heap needs of its entries: the order, and how an entry notes its position. -/
structure Ops (α : Type*) where
  less : α → α → Bool
  place : Nat → α → α

variable {α β : Type*}

section

variable (o : Ops α)

/-- `Less(i, j)`. -/
def lessAt (l : List α) (i j : Nat) : Option Bool :=
  match l[i]?, l[j]? with
  | some a, some b => some (o.less a b)
  | _, _ => none

/-- `Swap(i, j)`: the entries change places and note the new ones. -/
def swap (l : List α) (i j : Nat) : Option (List α) :=
  match l[i]?, l[j]? with
  | some a, some b => some ((l.set i (o.place i b)).set j (o.place j a))
  | _, _ => none

/-- `up(h, j)`. -/
def up (l : List α) (j : Nat) : Option (List α) :=
  let i := (j - 1) / 2
  if i = j then some l
  else match lessAt o l j i with
    | none => none
    | some false => some l
    | some true =>
      match swap o l i j with
      | none => none
      | some l' => up l' i
termination_by j

/-- `down(h, i, n)`; the second component is the position the loop ends at. -/
def down (l : List α) (i n : Nat) : Option (List α × Nat) :=
  let j₁ := 2 * i + 1
  if n ≤ j₁ then some (l, i)
  else match (if j₁ + 1 < n then lessAt o l (j₁ + 1) j₁ else some false) with
    | none => none
    | some right =>
      let j := if right then j₁ + 1 else j₁
      match lessAt o l j i with
      | none => none
      | some false => some (l, i)
      | some true =>
        match swap o l i j with
        | none => none
        | some l' => down l' j n
termination_by n - i
decreasing_by
  split <;> omega

/-- The loop of `Init`: positions `k - 1` down to `0`. -/
def initLoop (l : List α) (n : Nat) : Nat → Option (List α)
  | 0 => some l
  | k + 1 =>
    match down o l k n with
    | none => none
    | some (l', _) => initLoop l' n k

/-- `Init`. -/
def init (l : List α) : Option (List α) := initLoop o l l.length (l.length / 2)

/-- `Push`. -/
def push (l : List α) (x : α) : Option (List α) := up o (l ++ [o.place l.length x]) l.length

/-- `Fix`. -/
def fix (l : List α) (i : Nat) : Option (List α) :=
  match down o l i l.length with
  | none => none
  | some (l', i') => if i < i' then some l' else up o l' i

/-- The slice's own `Pop`: the last entry. -/
def popLast (l : List α) : Option (List α × α) :=
  match l.getLast? with
  | none => none
  | some x => some (l.dropLast, x)

/-- `Pop`. -/
def pop (l : List α) : Option (List α × α) :=
  match swap o l 0 (l.length - 1) with
  | none => none
  | some l₁ =>
    match down o l₁ 0 (l.length - 1) with
    | none => none
    | some (l₂, _) => popLast l₂

/-- `Remove`. -/
def remove (l : List α) (i : Nat) : Option (List α × α) :=
  let n := l.length - 1
  if n = i then popLast l
  else match swap o l i n with
    | none => none
    | some l₁ =>
      match down o l₁ i n with
      | none => none
      | some (l₂, i') =>
        if i < i' then popLast l₂
        else match up o l₂ i with
          | none => none
          | some l₃ => popLast l₃

end

/-! ## Swaps -/

variable {o : Ops α}

theorem lessAt_isSome {l : List α} {i j : Nat} (hi : i < l.length) (hj : j < l.length) :
    ∃ b, lessAt o l i j = some b := by
  simp [lessAt, hi, hj]

theorem swap_eq {l : List α} {i j : Nat} (hi : i < l.length) (hj : j < l.length) :
    swap o l i j = some ((l.set i (o.place i l[j])).set j (o.place j l[i])) := by
  simp [swap, hi, hj]

/-- A swap in range succeeds, and the second position then holds what the first held. -/
theorem swap_isSome {l : List α} {i j : Nat} (hi : i < l.length) (hj : j < l.length) :
    ∃ l', swap o l i j = some l' ∧ l'.length = l.length ∧ l'[j]? = some (o.place j l[i]) := by
  refine ⟨_, swap_eq hi hj, by simp, ?_⟩
  rw [List.getElem?_set_self (by simpa using hj)]

/-- One swap of positions below `m`. -/
def SwapBelow (o : Ops α) (m : Nat) (l l' : List α) : Prop :=
  ∃ i j, i < m ∧ j < m ∧ swap o l i j = some l'

/-- Any number of swaps of positions below `m`. -/
def Swaps (o : Ops α) (m : Nat) : List α → List α → Prop := Relation.ReflTransGen (SwapBelow o m)

theorem SwapBelow.inRange {m : Nat} {l l' : List α} (h : SwapBelow o m l l') :
    ∃ i j, ∃ (hi : i < l.length) (hj : j < l.length), i < m ∧ j < m ∧
      l' = (l.set i (o.place i l[j])).set j (o.place j l[i]) := by
  obtain ⟨i, j, him, hjm, hs⟩ := h
  by_cases hi : i < l.length
  · by_cases hj : j < l.length
    · rw [swap_eq hi hj] at hs
      cases hs
      exact ⟨i, j, hi, hj, him, hjm, rfl⟩
    · simp [swap, List.getElem?_eq_none (Nat.not_lt.mp hj)] at hs
  · simp [swap, List.getElem?_eq_none (Nat.not_lt.mp hi)] at hs

theorem SwapBelow.length_eq {m : Nat} {l l' : List α} (h : SwapBelow o m l l') :
    l'.length = l.length := by
  obtain ⟨i, j, hi, hj, -, -, rfl⟩ := h.inRange
  simp

theorem Swaps.length_eq {m : Nat} {l l' : List α} (h : Swaps o m l l') :
    l'.length = l.length := by
  induction h with
  | refl => rfl
  | tail _ hs ih => rw [hs.length_eq, ih]

/-- Positions from `m` on are left alone. -/
theorem Swaps.getElem?_eq {m k : Nat} {l l' : List α} (h : Swaps o m l l') (hk : m ≤ k) :
    l'[k]? = l[k]? := by
  induction h with
  | refl => rfl
  | tail _ hs ih =>
    obtain ⟨i, j, hi, hj, him, hjm, rfl⟩ := hs.inRange
    rw [← ih, List.getElem?_set_ne (by omega), List.getElem?_set_ne (by omega)]

theorem Swaps.mono {m m' : Nat} (hm : m ≤ m') {l l' : List α} (h : Swaps o m l l') :
    Swaps o m' l l' := by
  refine Relation.ReflTransGen.mono ?_ _ _ h
  rintro l₁ l₂ ⟨i, j, hi, hj, hs⟩
  exact ⟨i, j, by omega, by omega, hs⟩

/-- Every entry notes the position it is stored at. -/
def Placed (o : Ops α) (l : List α) : Prop := ∀ i a, l[i]? = some a → o.place i a = a

/-- Noting a position overwrites the position noted before. -/
def Ops.Overwrites (o : Ops α) : Prop := ∀ i j a, o.place i (o.place j a) = o.place i a

theorem Swaps.placed (ho : o.Overwrites) {m : Nat} {l l' : List α} (h : Swaps o m l l')
    (hl : Placed o l) : Placed o l' := by
  induction h with
  | refl => exact hl
  | tail _ hs ih =>
    obtain ⟨i, j, hi, hj, -, -, rfl⟩ := hs.inRange
    intro k a hk
    by_cases hjk : j = k
    · subst hjk
      rw [List.getElem?_set_self (by simpa using hj)] at hk
      cases hk
      exact ho _ _ _
    · rw [List.getElem?_set_ne hjk] at hk
      by_cases hik : i = k
      · subst hik
        rw [List.getElem?_set_self hi] at hk
        cases hk
        exact ho _ _ _
      · rw [List.getElem?_set_ne hik] at hk
        exact ih k a hk

/-- What `key` reads off an entry does not depend on where it is stored. -/
def Ops.Keeps (o : Ops α) (key : α → β) : Prop := ∀ i a, key (o.place i a) = key a

theorem Swaps.perm {key : α → β} (ho : o.Keeps key) {m : Nat} {l l' : List α}
    (h : Swaps o m l l') : (l'.map key).Perm (l.map key) := by
  induction h with
  | refl => exact .refl _
  | @tail l₁ _ _ hs ih =>
    obtain ⟨i, j, hi, hj, -, -, rfl⟩ := hs.inRange
    have hi' : i < (l₁.map key).length := by simpa using hi
    have hj' : j < (l₁.map key).length := by simpa using hj
    have hperm := List.set_set_perm hi' hj'
    rw [List.getElem_map, List.getElem_map] at hperm
    rw [List.map_set, List.map_set, ho, ho]
    exact hperm.trans ih

/-! ## The algorithms are made of swaps -/

theorem up_swaps {l : List α} {m : Nat} (hm : m ≤ l.length) {j : Nat} (hj : j < m) :
    ∃ l', up o l j = some l' ∧ Swaps o m l l' := by
  induction j using Nat.strongRecOn generalizing l with
  | ind j ih =>
    rw [up]
    by_cases hroot : (j - 1) / 2 = j
    · simp only [hroot, if_true]
      exact ⟨l, rfl, .refl⟩
    · simp only [hroot, if_false]
      have hlt : (j - 1) / 2 < j := by omega
      obtain ⟨b, hb⟩ := lessAt_isSome (o := o) (l := l) (i := j) (j := (j - 1) / 2)
        (by omega) (by omega)
      rw [hb]
      cases b with
      | false => exact ⟨l, rfl, .refl⟩
      | true =>
        obtain ⟨l₁, hs, hlen, -⟩ := swap_isSome (o := o) (l := l) (i := (j - 1) / 2) (j := j)
          (by omega) (by omega)
        simp only [hs]
        obtain ⟨l', hl', hsw⟩ := ih _ hlt (l := l₁) (by omega) (by omega)
        exact ⟨l', hl', .head ⟨_, _, by omega, hj, hs⟩ hsw⟩

/-- The child `down` compares with: the right one exactly if it is before the left one. -/
def Chosen (o : Ops α) (l : List α) (n i j : Nat) : Prop :=
  (j = 2 * i + 1 ∧ (2 * i + 2 < n → lessAt o l (2 * i + 2) (2 * i + 1) = some false)) ∨
    (j = 2 * i + 2 ∧ lessAt o l (2 * i + 2) (2 * i + 1) = some true)

/-- One round of `down` at a position that has a child. -/
theorem down_round {l : List α} {n i : Nat} (hn : n ≤ l.length) (hi : 2 * i + 1 < n) :
    ∃ j, Chosen o l n i j ∧ i < j ∧ j < n ∧
      down o l i n = match lessAt o l j i with
        | none => none
        | some false => some (l, i)
        | some true =>
          match swap o l i j with
          | none => none
          | some l' => down o l' j n := by
  have hleaf : ¬ n ≤ 2 * i + 1 := by omega
  rw [down]
  simp only [hleaf, if_false]
  by_cases h2 : 2 * i + 1 + 1 < n
  · obtain ⟨right, hr⟩ := lessAt_isSome (o := o) (l := l) (i := 2 * i + 2) (j := 2 * i + 1)
      (by omega) (by omega)
    simp only [h2, if_true, hr]
    cases right with
    | true => exact ⟨2 * i + 2, .inr ⟨rfl, hr⟩, by omega, by omega, rfl⟩
    | false => exact ⟨2 * i + 1, .inl ⟨rfl, fun _ => hr⟩, by omega, by omega, rfl⟩
  · simp only [h2, if_false]
    exact ⟨2 * i + 1, .inl ⟨rfl, fun h => absurd h h2⟩, by omega, by omega, rfl⟩

theorem down_swaps {l : List α} {n : Nat} (hn : n ≤ l.length) (i : Nat) :
    ∃ r, down o l i n = some r ∧ Swaps o n l r.1 := by
  induction hk : n - i using Nat.strongRecOn generalizing l i with
  | ind k ih =>
    by_cases hi : 2 * i + 1 < n
    · obtain ⟨j, -, hij, hjn, hround⟩ := down_round (o := o) hn hi
      obtain ⟨b, hb⟩ := lessAt_isSome (o := o) (l := l) (i := j) (j := i) (by omega) (by omega)
      rw [hround, hb]
      cases b with
      | false => exact ⟨(l, i), rfl, .refl⟩
      | true =>
        obtain ⟨l₁, hs, hlen, -⟩ := swap_isSome (o := o) (l := l) (i := i) (j := j)
          (by omega) (by omega)
        simp only [hs]
        obtain ⟨r, hr', hsw⟩ := ih (n - j) (by omega) (l := l₁) (by omega) j rfl
        exact ⟨r, hr', .head ⟨_, _, by omega, hjn, hs⟩ hsw⟩
    · have hleaf : n ≤ 2 * i + 1 := by omega
      rw [down]
      simp only [hleaf, if_true]
      exact ⟨(l, i), rfl, .refl⟩

theorem initLoop_swaps {l : List α} {n : Nat} (hn : n ≤ l.length) (k : Nat) :
    ∃ l', initLoop o l n k = some l' ∧ Swaps o n l l' := by
  induction k generalizing l with
  | zero => exact ⟨l, rfl, .refl⟩
  | succ k ih =>
    obtain ⟨⟨l₁, i⟩, hd, hs⟩ := down_swaps (o := o) hn k
    obtain ⟨l', hl', hs'⟩ := ih (l := l₁) (by rw [hs.length_eq]; exact hn)
    exact ⟨l', by simp only [initLoop, hd, hl'], hs.trans hs'⟩

theorem init_swaps (l : List α) : ∃ l', init o l = some l' ∧ Swaps o l.length l l' :=
  initLoop_swaps (Nat.le_refl _) _

theorem push_swaps (l : List α) (x : α) :
    ∃ l', push o l x = some l' ∧ Swaps o (l.length + 1) (l ++ [o.place l.length x]) l' :=
  up_swaps (by simp) (Nat.lt_succ_self _)

/-- `down` and, where it moved nothing, `up`: the common tail of `Fix` and `Remove`. -/
theorem settle_swaps {l : List α} {n : Nat} (hn : n ≤ l.length) {i : Nat} (hi : i < n) :
    ∃ l₂ i', down o l i n = some (l₂, i') ∧ Swaps o n l l₂ ∧
      ∃ l₃, up o l₂ i = some l₃ ∧ Swaps o n l l₃ := by
  obtain ⟨⟨l₂, i'⟩, hd, hs⟩ := down_swaps (o := o) hn i
  obtain ⟨l₃, hu, hs'⟩ := up_swaps (o := o) (l := l₂) (by rw [hs.length_eq]; exact hn) hi
  exact ⟨l₂, i', hd, hs, l₃, hu, hs.trans hs'⟩

theorem fix_swaps {l : List α} {i : Nat} (hi : i < l.length) :
    ∃ l', fix o l i = some l' ∧ Swaps o l.length l l' := by
  obtain ⟨l₂, i', hd, hs, l₃, hu, hs'⟩ := settle_swaps (o := o) (Nat.le_refl _) hi
  by_cases hmoved : i < i'
  · exact ⟨l₂, by simp [fix, hd, hmoved], hs⟩
  · exact ⟨l₃, by simp [fix, hd, hmoved, hu], hs'⟩

/-- Out of range `Fix` panics, but on the empty slice. -/
theorem swaps_of_fix {l l' : List α} {i : Nat} (h : fix o l i = some l') :
    Swaps o l.length l l' := by
  by_cases hi : i < l.length
  · obtain ⟨l₁, hl₁, hs⟩ := fix_swaps (o := o) hi
    cases hl₁.symm.trans h
    exact hs
  · have hleaf : l.length ≤ 2 * i + 1 := by omega
    have hdown : down o l i l.length = some (l, i) := by
      rw [down]
      simp only [hleaf, if_true]
    simp only [fix, hdown, Nat.lt_irrefl, if_false] at h
    rw [up] at h
    by_cases hroot : (i - 1) / 2 = i
    · simp only [hroot, if_true, Option.some.injEq] at h
      subst h
      exact .refl
    · simp [hroot, lessAt, List.getElem?_eq_none (Nat.not_lt.mp hi)] at h

/-! ## Taking an entry out -/

/-- The last entry of a list that ends in a known one. -/
theorem popLast_eq {l : List α} {x : α} {n : Nat} (hn : l.length = n + 1) (hx : l[n]? = some x) :
    popLast l = some (l.dropLast, x) := by
  have hlast : l.getLast? = some x := by
    rw [List.getLast?_eq_getElem?, hn]
    exact hx
  simp [popLast, hlast]

/-- A removal swaps the entry to the end, rearranges the rest and cuts the end off. -/
theorem remove_swaps {l : List α} {i : Nat} (hi : i < l.length) :
    ∃ l₁ x, Swaps o l.length l l₁ ∧ remove o l i = some (l₁.dropLast, x) ∧
      l₁[l.length - 1]? = some x ∧ (x = l[i] ∨ x = o.place (l.length - 1) l[i]) := by
  by_cases hlast : l.length - 1 = i
  · refine ⟨l, l[i], .refl, ?_, ?_, .inl rfl⟩
    · simp only [remove, hlast, if_true]
      exact popLast_eq (n := i) (by omega) (by simp [hi])
    · simp [hlast, hi]
  · obtain ⟨l₁, hswap, hlen, hend⟩ := swap_isSome (o := o) (j := l.length - 1) hi (by omega)
    have hbelow : SwapBelow o l.length l l₁ := ⟨_, _, hi, by omega, hswap⟩
    obtain ⟨l₂, i', hd, hs₂, l₃, hu, hs₃⟩ := settle_swaps (o := o) (l := l₁)
      (n := l.length - 1) (by omega) (i := i) (by omega)
    -- whichever of the two ends the removal, the entry is still last
    have hcut : ∀ l₄, Swaps o (l.length - 1) l₁ l₄ →
        Swaps o l.length l l₄ ∧ popLast l₄ = some (l₄.dropLast, o.place (l.length - 1) l[i]) ∧
          l₄[l.length - 1]? = some (o.place (l.length - 1) l[i]) := by
      intro l₄ hs
      have hlen₄ := hs.length_eq
      have hx : l₄[l.length - 1]? = some (o.place (l.length - 1) l[i]) := by
        rw [hs.getElem?_eq (Nat.le_refl _), hend]
      exact ⟨.head hbelow (hs.mono (by omega)), popLast_eq (by omega) hx, hx⟩
    by_cases hmoved : i < i'
    · obtain ⟨hs, hp, hx⟩ := hcut l₂ hs₂
      refine ⟨l₂, _, hs, ?_, hx, .inr rfl⟩
      simp only [remove, hlast, if_false, hswap, hd, hmoved, if_true, hp]
    · obtain ⟨hs, hp, hx⟩ := hcut l₃ hs₃
      refine ⟨l₃, _, hs, ?_, hx, .inr rfl⟩
      simp only [remove, hlast, if_false, hswap, hd, hmoved, hu, hp]

theorem pop_swaps {l : List α} (hl : 0 < l.length) :
    ∃ l₁ x, Swaps o l.length l l₁ ∧ pop o l = some (l₁.dropLast, x) ∧
      l₁[l.length - 1]? = some x ∧ x = o.place (l.length - 1) l[0] := by
  obtain ⟨l₁, hswap, hlen, hend⟩ := swap_isSome (o := o) (j := l.length - 1) hl (by omega)
  have hbelow : SwapBelow o l.length l l₁ := ⟨_, _, hl, by omega, hswap⟩
  obtain ⟨⟨l₂, i'⟩, hd, hs⟩ := down_swaps (o := o) (l := l₁) (n := l.length - 1) (by omega) 0
  have hlen₂ := hs.length_eq
  have hx : l₂[l.length - 1]? = some (o.place (l.length - 1) l[0]) := by
    rw [hs.getElem?_eq (Nat.le_refl _), hend]
  refine ⟨l₂, _, .head hbelow (hs.mono (by omega)), ?_, hx, rfl⟩
  simp only [pop, hswap, hd]
  exact popLast_eq (by simp only at hlen₂; omega) hx

end SliceHeap
